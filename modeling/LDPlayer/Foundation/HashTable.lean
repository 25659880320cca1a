/-
Hash tables with unique keys and the relations that several tables over the
same objects keep.

A table is an association list without repeated keys; no result depends on the
order of its entries.  Two relations recur when tables index each other: two
tables that are inverse to each other, and an owner table whose groups are kept
as lists in a second table.
-/
import Mathlib

set_option autoImplicit false

abbrev HashTable (Key Value : Type) : Type := AList (fun _ : Key => Value)

namespace HashTable

variable {Key Value Other : Type} [DecidableEq Key]

def size (table : HashTable Key Value) : Nat := table.entries.length

def values (table : HashTable Key Value) : List Value := table.entries.map Sigma.snd

/-- `insert` of a pair: an existing entry is kept. -/
def emplace (key : Key) (value : Value) (table : HashTable Key Value) :
    HashTable Key Value :=
  if key ∈ table then table else table.insert key value

/-- Reading through the subscript operator creates a missing entry. -/
def subscript (fallback : Value) (key : Key) (table : HashTable Key Value) :
    Value × HashTable Key Value :=
  match table.lookup key with
  | some value => (value, table)
  | none => (fallback, table.insert key fallback)

theorem mem_iff_lookup {table : HashTable Key Value} {key : Key} :
    key ∈ table ↔ ∃ value, table.lookup key = some value := by
  rw [← AList.lookup_isSome, Option.isSome_iff_exists]

theorem notMem_iff_lookup {table : HashTable Key Value} {key : Key} :
    key ∉ table ↔ table.lookup key = none :=
  AList.lookup_eq_none.symm

theorem lookup_insert_eq {table : HashTable Key Value} {key other : Key} {value : Value} :
    (table.insert key value).lookup other =
      if other = key then some value else table.lookup other := by
  by_cases same : other = key
  · subst same
    rw [AList.lookup_insert, if_pos rfl]
  · rw [AList.lookup_insert_ne same, if_neg same]

theorem lookup_insert_cases {table : HashTable Key Value} {key other : Key}
    {value image : Value} (found : (table.insert key value).lookup other = some image) :
    (other = key ∧ image = value) ∨ table.lookup other = some image := by
  rw [lookup_insert_eq] at found
  by_cases same : other = key
  · rw [if_pos same] at found
    exact Or.inl ⟨same, (Option.some.inj found).symm⟩
  · rw [if_neg same] at found
    exact Or.inr found

theorem lookup_erase_eq {table : HashTable Key Value} {key other : Key} :
    (table.erase key).lookup other = if other = key then none else table.lookup other := by
  by_cases same : other = key
  · subst same
    rw [AList.lookup_erase, if_pos rfl]
  · rw [AList.lookup_erase_ne same, if_neg same]

theorem emplace_of_absent {table : HashTable Key Value} {key : Key} {value : Value}
    (absent : key ∉ table) : table.emplace key value = table.insert key value :=
  if_neg absent

theorem subscript_of_lookup {table : HashTable Key Value} {fallback value : Value} {key : Key}
    (found : table.lookup key = some value) :
    table.subscript fallback key = (value, table) := by
  simp only [subscript, found]

theorem subscript_value (table : HashTable Key Value) (fallback : Value) (key : Key) :
    (table.subscript fallback key).1 = (table.lookup key).getD fallback := by
  unfold subscript
  cases table.lookup key <;> rfl

/-- The entry that the subscript may create is overwritten. -/
theorem subscript_insert (table : HashTable Key Value) (fallback value : Value) (key : Key) :
    (table.subscript fallback key).2.insert key value = table.insert key value := by
  unfold subscript
  cases table.lookup key with
  | none => exact AList.insert_insert _
  | some old => rfl

theorem size_eq_zero {table : HashTable Key Value} :
    table.size = 0 ↔ ∀ key, table.lookup key = none := by
  constructor
  · intro empty key
    rw [AList.lookup_eq_none]
    intro member
    have noEntries : table.entries = [] := List.length_eq_zero_iff.mp empty
    rw [AList.mem_keys, AList.keys, noEntries] at member
    cases member
  · intro absent
    by_contra nonempty
    obtain ⟨entry, member⟩ := List.exists_mem_of_length_pos (Nat.pos_of_ne_zero nonempty)
    have missing := AList.lookup_eq_none.mp (absent entry.1)
    exact missing (AList.mem_keys.mpr (List.mem_map.mpr ⟨entry, member, rfl⟩))

theorem mem_values {table : HashTable Key Value} {value : Value} :
    value ∈ table.values ↔ ∃ key, table.lookup key = some value := by
  constructor
  · intro member
    obtain ⟨⟨key, stored⟩, entry, rfl⟩ := List.mem_map.mp member
    exact ⟨key, AList.mem_lookup_iff.mpr entry⟩
  · intro stored
    obtain ⟨key, found⟩ := stored
    exact List.mem_map.mpr ⟨⟨key, value⟩, AList.mem_lookup_iff.mp found, rfl⟩

def OneKey (table : HashTable Key Value) : Prop :=
  ∀ key other value, table.lookup key = some value → table.lookup other = some value →
    key = other

theorem OneKey.values_nodup {table : HashTable Key Value} (oneKey : table.OneKey) :
    table.values.Nodup := by
  apply List.Nodup.map_on
  · intro left entry right otherEntry sameValue
    obtain ⟨key, value⟩ := left
    obtain ⟨other, stored⟩ := right
    have same : value = stored := sameValue
    subst same
    obtain rfl := oneKey key other value (AList.mem_lookup_iff.mpr entry)
      (AList.mem_lookup_iff.mpr otherEntry)
    rfl
  · exact table.nodupKeys.nodup

theorem OneKey.insert {table : HashTable Key Value} (oneKey : table.OneKey) {key : Key}
    {value : Value} (unused : ∀ other, table.lookup other ≠ some value) :
    OneKey (table.insert key value) := by
  intro left right image leftFound rightFound
  rw [lookup_insert_eq] at leftFound rightFound
  by_cases atLeft : left = key
  · rw [if_pos atLeft] at leftFound
    by_cases atRight : right = key
    · rw [atLeft, atRight]
    · rw [if_neg atRight, ← leftFound] at rightFound
      exact absurd rightFound (unused right)
  · rw [if_neg atLeft] at leftFound
    by_cases atRight : right = key
    · rw [if_pos atRight] at rightFound
      rw [← rightFound] at leftFound
      exact absurd leftFound (unused left)
    · rw [if_neg atRight] at rightFound
      exact oneKey left right image leftFound rightFound

theorem OneKey.erase {table : HashTable Key Value} (oneKey : table.OneKey) (key : Key) :
    OneKey (table.erase key) := by
  intro left right value leftFound rightFound
  rw [lookup_erase_eq] at leftFound rightFound
  split at leftFound
  · cases leftFound
  · split at rightFound
    · cases rightFound
    · exact oneKey left right value leftFound rightFound

theorem size_insert {table : HashTable Key Value} {key : Key} (absent : key ∉ table)
    (value : Value) : size (table.insert key value) = table.size + 1 := by
  rw [size, AList.entries_insert_of_notMem absent, List.length_cons, size]

def eraseAll (keys : List Key) (table : HashTable Key Value) : HashTable Key Value :=
  keys.foldl (fun current key => current.erase key) table

theorem lookup_eraseAll (keys : List Key) (table : HashTable Key Value) (key : Key) :
    (table.eraseAll keys).lookup key = if key ∈ keys then none else table.lookup key := by
  induction keys generalizing table with
  | nil => simp only [eraseAll, List.foldl_nil, List.not_mem_nil, if_false]
  | cons head rest ih =>
      have tail := ih (table.erase head)
      simp only [eraseAll, List.foldl_cons] at tail ⊢
      rw [tail, lookup_erase_eq]
      by_cases atHead : key = head
      · simp [atHead]
      · by_cases inRest : key ∈ rest <;> simp [atHead, inRest]

/-! ### Tables with the same keys -/

def SameKeys (left : HashTable Key Value) (right : HashTable Key Other) : Prop :=
  ∀ key, key ∈ left ↔ key ∈ right

theorem SameKeys.insert {left : HashTable Key Value} {right : HashTable Key Other}
    (same : SameKeys left right) (key : Key) (value : Value) (other : Other) :
    SameKeys (left.insert key value) (right.insert key other) := by
  intro probe
  rw [AList.mem_insert, AList.mem_insert, same probe]

theorem SameKeys.erase {left : HashTable Key Value} {right : HashTable Key Other}
    (same : SameKeys left right) (key : Key) :
    SameKeys (left.erase key) (right.erase key) := by
  intro probe
  rw [AList.mem_erase, AList.mem_erase, same probe]

/-! ### Inverse tables -/

section twoWay

variable [DecidableEq Value]

/-- The two tables list the same pairs, read in the two directions. -/
def Inverse (forward : HashTable Key Value) (backward : HashTable Value Key) : Prop :=
  ∀ key value, forward.lookup key = some value ↔ backward.lookup value = some key

theorem Inverse.empty : Inverse (∅ : HashTable Key Value) (∅ : HashTable Value Key) := by
  intro key value
  simp

theorem Inverse.insert {forward : HashTable Key Value} {backward : HashTable Value Key}
    (inverse : Inverse forward backward) {key : Key} {value : Value}
    (freshKey : key ∉ forward) (freshValue : value ∉ backward) :
    Inverse (forward.insert key value) (backward.insert value key) := by
  intro other image
  rw [lookup_insert_eq, lookup_insert_eq]
  by_cases sameKey : other = key
  · by_cases sameValue : image = value
    · simp only [sameKey, sameValue, if_true]
    · have absent : backward.lookup image ≠ some key := by
        intro found
        have stored := (inverse key image).mpr found
        rw [notMem_iff_lookup.mp freshKey] at stored
        cases stored
      simp only [sameKey, if_true, if_neg sameValue, Option.some.injEq]
      exact iff_of_false (fun same => sameValue same.symm) absent
  · by_cases sameValue : image = value
    · have absent : forward.lookup other ≠ some value := by
        intro found
        have stored := (inverse other value).mp found
        rw [notMem_iff_lookup.mp freshValue] at stored
        cases stored
      simp only [if_neg sameKey, sameValue, if_true, Option.some.injEq]
      exact iff_of_false absent (fun same => sameKey same.symm)
    · simp only [if_neg sameKey, if_neg sameValue]
      exact inverse other image

theorem Inverse.erase {forward : HashTable Key Value} {backward : HashTable Value Key}
    (inverse : Inverse forward backward) {key : Key} {value : Value}
    (paired : backward.lookup value = some key) :
    Inverse (forward.erase key) (backward.erase value) := by
  intro other image
  have stored := (inverse key value).mpr paired
  rw [lookup_erase_eq, lookup_erase_eq]
  by_cases sameKey : other = key
  · by_cases sameValue : image = value
    · simp only [sameKey, sameValue, if_true, reduceCtorEq]
    · simp only [sameKey, if_true, if_neg sameValue, reduceCtorEq, false_iff]
      intro found
      have both := (inverse key image).mpr found
      exact sameValue (Option.some.inj (both.symm.trans stored))
  · by_cases sameValue : image = value
    · simp only [if_neg sameKey, sameValue, if_true, reduceCtorEq, iff_false]
      intro found
      have both := (inverse other value).mp found
      exact sameKey (Option.some.inj (both.symm.trans paired))
    · simp only [if_neg sameKey, if_neg sameValue]
      exact inverse other image

/-! ### An owner table and the groups of its members -/

/-- Every key of `owner` occurs in the group of the value it is mapped to,
once, and in no other group; the groups list nothing else. -/
structure Grouped (owner : HashTable Key Value) (groups : HashTable Value (List Key)) :
    Prop where
  listed : ∀ key value, owner.lookup key = some value ↔
    ∃ members, groups.lookup value = some members ∧ key ∈ members
  once : ∀ value members, groups.lookup value = some members → members.Nodup

theorem Grouped.empty : Grouped (∅ : HashTable Key Value) (∅ : HashTable Value (List Key)) where
  listed := by intro key value; simp
  once := by intro value members found; simp at found

variable {owner : HashTable Key Value} {groups : HashTable Value (List Key)}

theorem Grouped.notMem_of_absent (grouped : Grouped owner groups) {key : Key} {value : Value}
    {members : List Key} (absent : owner.lookup key = none)
    (found : groups.lookup value = some members) : key ∉ members := by
  intro member
  have stored := (grouped.listed key value).mpr ⟨members, found, member⟩
  rw [absent] at stored
  cases stored

theorem Grouped.unique (grouped : Grouped owner groups) {key : Key} {left right : Value}
    {leftMembers rightMembers : List Key}
    (leftFound : groups.lookup left = some leftMembers) (leftMember : key ∈ leftMembers)
    (rightFound : groups.lookup right = some rightMembers) (rightMember : key ∈ rightMembers) :
    left = right := by
  have one := (grouped.listed key left).mpr ⟨leftMembers, leftFound, leftMember⟩
  have other := (grouped.listed key right).mpr ⟨rightMembers, rightFound, rightMember⟩
  exact Option.some.inj (one.symm.trans other)

/-- A value without a group, or with an empty one, owns nothing; it may be
given a new empty group. -/
theorem Grouped.addGroup (grouped : Grouped owner groups) {value : Value}
    (free : groups.lookup value = none ∨ groups.lookup value = some []) :
    Grouped owner (groups.insert value []) where
  listed := by
    intro key image
    rw [grouped.listed key image, lookup_insert_eq]
    by_cases same : image = value
    · subst same
      rcases free with missing | empty
      · simp [missing]
      · simp [empty]
    · simp only [if_neg same]
  once := by
    intro image members found
    rcases lookup_insert_cases found with ⟨_same, stored⟩ | before
    · rw [stored]
      exact List.nodup_nil
    · exact grouped.once image members before

theorem Grouped.join (grouped : Grouped owner groups) {key : Key} {value : Value}
    {members : List Key} (absent : owner.lookup key = none)
    (found : groups.lookup value = some members) :
    Grouped (owner.insert key value) (groups.insert value (members ++ [key])) where
  listed := by
    intro other image
    rw [lookup_insert_eq, lookup_insert_eq]
    by_cases sameKey : other = key
    · subst sameKey
      by_cases sameValue : image = value
      · simp [sameValue]
      · simp only [if_true, Option.some.injEq, if_neg sameValue]
        refine iff_of_false (fun same => sameValue same.symm) ?_
        intro inGroup
        obtain ⟨listedMembers, group, member⟩ := inGroup
        exact grouped.notMem_of_absent absent group member
    · rw [if_neg sameKey, grouped.listed other image]
      by_cases sameValue : image = value
      · subst sameValue
        simp [found, sameKey]
      · rw [if_neg sameValue]
  once := by
    intro image listedMembers group
    rw [lookup_insert_eq] at group
    by_cases sameValue : image = value
    · rw [if_pos sameValue] at group
      rw [← Option.some.inj group, List.nodup_append]
      refine ⟨grouped.once value members found, List.nodup_singleton key, ?_⟩
      intro other member last same equal
      rw [List.mem_singleton] at same
      rw [equal, same] at member
      exact grouped.notMem_of_absent absent found member
    · rw [if_neg sameValue] at group
      exact grouped.once image listedMembers group

/-- A group leaves together with the ownership of its members. -/
theorem Grouped.leave (grouped : Grouped owner groups) {value : Value} {members : List Key}
    (found : groups.lookup value = some members) :
    Grouped (owner.eraseAll members) (groups.erase value) where
  listed := by
    intro key image
    rw [lookup_eraseAll, lookup_erase_eq]
    by_cases member : key ∈ members
    · have stored := (grouped.listed key value).mpr ⟨members, found, member⟩
      rw [if_pos member]
      by_cases sameValue : image = value
      · simp [sameValue]
      · simp only [reduceCtorEq, if_neg sameValue, false_iff]
        intro inGroup
        obtain ⟨others, group, inOthers⟩ := inGroup
        exact sameValue (grouped.unique group inOthers found member)
    · rw [if_neg member, grouped.listed key image]
      by_cases sameValue : image = value
      · subst sameValue
        simp [found, member]
      · rw [if_neg sameValue]
  once := by
    intro image others group
    rw [lookup_erase_eq] at group
    by_cases sameValue : image = value
    · rw [if_pos sameValue] at group
      cases group
    · rw [if_neg sameValue] at group
      exact grouped.once image others group

theorem Grouped.lookup_leave (grouped : Grouped owner groups) {value : Value}
    {members : List Key} (found : groups.lookup value = some members) (key : Key) :
    (owner.eraseAll members).lookup key =
      if owner.lookup key = some value then none else owner.lookup key := by
  rw [lookup_eraseAll]
  by_cases member : key ∈ members
  · have stored := (grouped.listed key value).mpr ⟨members, found, member⟩
    rw [if_pos member, if_pos stored]
  · have other : owner.lookup key ≠ some value := by
      intro stored
      obtain ⟨listedMembers, group, inGroup⟩ := (grouped.listed key value).mp stored
      rw [found] at group
      rw [← Option.some.inj group] at inGroup
      exact member inGroup
    rw [if_neg member, if_neg other]

end twoWay

/-! ### Going through a table -/

/-- The order in which a table is gone through, any one. -/
structure Order (Key Value : Type) where
  through : HashTable Key Value → List (Sigma fun _ : Key => Value)
  perm : ∀ table, (through table).Perm table.entries

namespace Order

variable {order : Order Key Value} {table : HashTable Key Value}

omit [DecidableEq Key] in
def stored : Order Key Value := ⟨AList.entries, fun _table => List.Perm.refl _⟩

theorem mem_through {key : Key} {value : Value} :
    ⟨key, value⟩ ∈ order.through table ↔ table.lookup key = some value := by
  rw [(order.perm table).mem_iff]
  exact AList.mem_lookup_iff.symm

theorem dlookup_through (key : Key) :
    (order.through table).dlookup key = table.lookup key :=
  List.perm_dlookup key ((List.perm_nodupKeys (order.perm table)).mpr table.nodupKeys)
    (order.perm table)

/-- Any arrangement of the entries of a table is one of the orders. -/
theorem exists_through [DecidableEq Value] {items : List (Sigma fun _ : Key => Value)}
    (arranged : items.Perm table.entries) :
    ∃ order : Order Key Value, order.through table = items := by
  let through (other : HashTable Key Value) : List (Sigma fun _ : Key => Value) :=
    if other.entries = table.entries then items else other.entries
  have perm (other : HashTable Key Value) : (through other).Perm other.entries := by
    by_cases same : other.entries = table.entries
    · rw [show through other = items from if_pos same, same]
      exact arranged
    · rw [show through other = other.entries from if_neg same]
  exact ⟨⟨through, perm⟩, if_pos rfl⟩

end Order

/-- What a loop leaves where one key alone has a say: the entry of that key acts once,
wherever it stands, and the others keep what is looked at. -/
theorem view_foldl {State View : Type} {step : State → (Sigma fun _ : Key => Value) → State}
    (view : State → View) (set : Value → View → View) {key : Key}
    {items : List (Sigma fun _ : Key => Value)} (once : items.NodupKeys)
    (keeps : ∀ state, ∀ entry ∈ items, entry.1 ≠ key → view (step state entry) = view state)
    (sets : ∀ state value, view (step state ⟨key, value⟩) = set value (view state))
    (state : State) :
    view (items.foldl step state) =
      (items.dlookup key).elim (view state) (fun value => set value (view state)) := by
  induction items generalizing state with
  | nil => rfl
  | cons entry rest ih =>
      obtain ⟨fresh, restOnce⟩ := List.nodupKeys_cons.mp once
      have tail := ih restOnce (fun state entry member => keeps state entry
        (List.mem_cons_of_mem _ member)) (step state entry)
      rw [List.foldl_cons, tail]
      obtain ⟨head, value⟩ := entry
      by_cases same : head = key
      · subst same
        rw [List.dlookup_eq_none.mpr fresh, List.dlookup_cons_eq]
        exact sets state value
      · rw [List.dlookup_cons_ne _ _ (Ne.symm same)]
        rw [keeps state ⟨head, value⟩ List.mem_cons_self same]

theorem Order.view_foldl {State View : Type}
    {step : State → (Sigma fun _ : Key => Value) → State} (view : State → View)
    (set : Value → View → View) {key : Key} (order : Order Key Value) (table : HashTable Key Value)
    (keeps : ∀ state, ∀ entry ∈ order.through table, entry.1 ≠ key →
      view (step state entry) = view state)
    (sets : ∀ state value, view (step state ⟨key, value⟩) = set value (view state))
    (state : State) :
    view ((order.through table).foldl step state) =
      (table.lookup key).elim (view state) (fun value => set value (view state)) := by
  have once := (List.perm_nodupKeys (order.perm table)).mpr table.nodupKeys
  rw [HashTable.view_foldl view set once keeps sets, dlookup_through]

/-! ### Loops that stop at a fault -/

section loops

variable {Fault State Entry : Type} {stepM : State → Entry → Except Fault State}
  (step : State → Entry → State) (holds : State → Prop) {items : List Entry}

theorem foldlM_ok (keeps : ∀ state entry, holds state → holds (step state entry))
    (runs : ∀ state, holds state → ∀ entry ∈ items, stepM state entry = .ok (step state entry))
    {state : State} (start : holds state) :
    items.foldlM stepM state = .ok (items.foldl step state) := by
  induction items generalizing state with
  | nil => rfl
  | cons entry rest ih =>
      have first := runs state start entry List.mem_cons_self
      have tail := ih (fun state kept entry member => runs state kept entry
        (List.mem_cons_of_mem _ member)) (keeps state entry start)
      rw [List.foldlM_cons, first, List.foldl_cons]
      exact tail

/-- A loop in which no other fault can occur ends in the one that has to. -/
theorem foldlM_error {fault : Fault} {bad : Entry} (member : bad ∈ items)
    (keeps : ∀ state entry, holds state → holds (step state entry))
    (runs : ∀ state, holds state → ∀ entry ∈ items,
      stepM state entry = .ok (step state entry) ∨ stepM state entry = .error fault)
    (fails : ∀ state, holds state → stepM state bad = .error fault)
    {state : State} (start : holds state) :
    items.foldlM stepM state = .error fault := by
  induction items generalizing state with
  | nil => cases member
  | cons entry rest ih =>
      rw [List.foldlM_cons]
      rcases runs state start entry List.mem_cons_self with first | first
      · have later : bad ∈ rest := by
          rcases List.mem_cons.mp member with rfl | later
          · rw [fails state start] at first
            cases first
          · exact later
        rw [first]
        exact ih later (fun state kept entry member => runs state kept entry
          (List.mem_cons_of_mem _ member)) (keeps state entry start)
      · rw [first]
        rfl

end loops

end HashTable
