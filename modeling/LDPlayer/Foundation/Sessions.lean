/-
Items that are dealt to sessions, which open and close.

Sessions have the numbers in which they open.  Each item goes to a session that is
open, and as long as that session is open all items of the same source go there.
When a session closes its sources are forgotten.
-/
import Mathlib

set_option autoImplicit false

namespace Sessions

theorem getElem?_concat_cases {Item : Type} {items : List Item} {item found : Item} {k : Nat}
    (is : (items ++ [item])[k]? = some found) :
    items[k]? = some found ∨ k = items.length ∧ found = item := by
  rw [List.getElem?_append] at is
  split at is
  · exact Or.inl is
  · rename_i behind
    have last : k - items.length = 0 := by
      have within := (List.getElem?_eq_some_iff.mp is).1
      rw [List.length_singleton] at within
      omega
    rw [last] at is
    exact Or.inr ⟨by omega, (Option.some.inj is).symm⟩

/-- The numbers of items that were dealt before the session opened, and before it closed. -/
structure Session where
  opened : Nat
  closed : Option Nat := none

structure Session.OpenAt (session : Session) (k : Nat) : Prop where
  opened : session.opened ≤ k
  closed : ∀ t, session.closed = some t → k < t

/-- The items dealt are known by their source and the session they went to. -/
structure State (Source : Type) where
  sessions : List Session := []
  dealt : List (Source × Nat) := []
  current : Source → Option Nat := fun _source => none

variable {Source : Type}

namespace State

def opens (s : State Source) : State Source :=
  { s with sessions := s.sessions ++ [{ opened := s.dealt.length }] }

def closes (n : Nat) (s : State Source) : State Source :=
  { s with
    sessions := s.sessions.modify n (fun session => { session with closed := some s.dealt.length })
    current := fun source => if s.current source = some n then none else s.current source }

def Open (s : State Source) (n : Nat) : Prop :=
  ∃ session : Session, s.sessions[n]? = some session ∧ session.closed = none

variable {s : State Source}

private theorem opens_sessions {n : Nat} {session : Session}
    (found : s.opens.sessions[n]? = some session) :
    s.sessions[n]? = some session ∨
      n = s.sessions.length ∧ session = { opened := s.dealt.length } :=
  getElem?_concat_cases found

private theorem opens_keeps {n : Nat} {session : Session} (found : s.sessions[n]? = some session) :
    s.opens.sessions[n]? = some session :=
  (List.getElem?_append_left (List.getElem?_eq_some_iff.mp found).1).trans found

theorem closes_sessions (n m : Nat) :
    (s.closes n).sessions[m]? =
      if n = m then s.sessions[m]?.map (fun session =>
        { session with closed := some s.dealt.length }) else s.sessions[m]? := by
  unfold State.closes
  rw [List.getElem?_modify]
  by_cases same : n = m
  · simp only [if_pos same]
    rfl
  · simp only [if_neg same]
    exact Option.map_id'

private theorem closes_open {n m : Nat} (isOpen : (s.closes n).Open m) : s.Open m ∧ n ≠ m := by
  obtain ⟨session, found, still⟩ := isOpen
  rw [closes_sessions] at found
  by_cases same : n = m
  · rw [if_pos same] at found
    obtain ⟨old, _found, is⟩ := Option.map_eq_some_iff.mp found
    rw [← is] at still
    cases still
  · rw [if_neg same] at found
    exact ⟨⟨session, found, still⟩, same⟩

end State

/-- Items went to open sessions, and those of a source to one session until it closed. -/
structure Fair (s : State Source) : Prop where
  opened : ∀ (n : Nat) (session : Session), s.sessions[n]? = some session →
    session.opened ≤ s.dealt.length
  closed : ∀ (n : Nat) (session : Session) (t : Nat), s.sessions[n]? = some session →
    session.closed = some t → t ≤ s.dealt.length
  open_at : ∀ (k : Nat) source n, s.dealt[k]? = some (source, n) →
    ∃ session : Session, s.sessions[n]? = some session ∧ session.OpenAt k
  kept : ∀ (k : Nat) source n, s.dealt[k]? = some (source, n) → s.Open n → s.current source = some n
  sticky : ∀ (k l : Nat) source n other, k < l → s.dealt[k]? = some (source, n) →
    s.dealt[l]? = some (source, other) → other = n ∨
      ∃ (session : Session) (t : Nat), s.sessions[n]? = some session ∧
        session.closed = some t ∧ k < t ∧ t ≤ l

theorem fair_start : Fair ({} : State Source) where
  opened _n _session impossible := by cases impossible
  closed _n _session _t impossible := by cases impossible
  open_at _k _source _n impossible := by cases impossible
  kept _k _source _n impossible := by cases impossible
  sticky _k _l _source _n _other _less impossible := by cases impossible

variable {s next : State Source}

theorem Fair.opens (fair : Fair s) : Fair s.opens where
  opened n session found := by
    rcases State.opens_sessions found with old | ⟨_last, is⟩
    · exact fair.opened n session old
    · rw [is]
      exact Nat.le_refl _
  closed n session t found is_closed := by
    rcases State.opens_sessions found with old | ⟨_last, is⟩
    · exact fair.closed n session t old is_closed
    · rw [is] at is_closed
      cases is_closed
  open_at k source n dealt := by
    obtain ⟨session, found, isOpen⟩ := fair.open_at k source n dealt
    exact ⟨session, State.opens_keeps found, isOpen⟩
  kept k source n dealt isOpen := by
    -- the session of an item was there before
    obtain ⟨old, before, _open⟩ := fair.open_at k source n dealt
    obtain ⟨session, found, still⟩ := isOpen
    rw [State.opens_keeps before] at found
    exact fair.kept k source n dealt ⟨old, before, (Option.some.inj found) ▸ still⟩
  sticky k l source n other less first second := by
    rcases fair.sticky k l source n other less first second with same | ⟨session, t, found, rest⟩
    · exact Or.inl same
    · exact Or.inr ⟨session, t, State.opens_keeps found, rest⟩

theorem Fair.closes (fair : Fair s) {n : Nat} (isOpen : s.Open n) : Fair (s.closes n) where
  opened m session found := by
    rw [State.closes_sessions] at found
    split at found
    · obtain ⟨old, before, is⟩ := Option.map_eq_some_iff.mp found
      rw [← is]
      exact fair.opened m old before
    · exact fair.opened m session found
  closed m session t found is_closed := by
    rw [State.closes_sessions] at found
    split at found
    · obtain ⟨old, _before, is⟩ := Option.map_eq_some_iff.mp found
      rw [← is] at is_closed
      exact (Option.some.inj is_closed).symm.le
    · exact fair.closed m session t found is_closed
  open_at k source m dealt := by
    obtain ⟨session, found, open_at⟩ := fair.open_at k source m dealt
    rw [State.closes_sessions]
    split
    · refine ⟨_, congrArg (Option.map _) found, open_at.opened, ?_⟩
      intro t is
      rw [← Option.some.inj is]
      exact (List.getElem?_eq_some_iff.mp dealt).1
    · exact ⟨session, found, open_at⟩
  kept k source m dealt still := by
    obtain ⟨before, other⟩ := State.closes_open still
    have current := fair.kept k source m dealt before
    unfold State.closes
    simp only
    rw [current, if_neg]
    exact fun same => other (Option.some.inj same).symm
  sticky k l source m other less first second := by
    rcases fair.sticky k l source m other less first second with
      same | ⟨session, t, found, is_closed, rest⟩
    · exact Or.inl same
    · refine Or.inr ⟨session, t, ?_, is_closed, rest⟩
      rw [State.closes_sessions, if_neg]
      · exact found
      · rintro rfl
        obtain ⟨own, is, still⟩ := isOpen
        rw [Option.some.inj (is.symm.trans found), is_closed] at still
        cases still

variable [DecidableEq Source]

def State.deals (source : Source) (n : Nat) (s : State Source) : State Source :=
  { s with
    dealt := s.dealt ++ [(source, n)]
    current := Function.update s.current source (some n) }

theorem Fair.deals (fair : Fair s) {source : Source} {n : Nat} (isOpen : s.Open n)
    (stays : ∀ other, s.current source = some other → other = n) : Fair (s.deals source n) where
  opened m session found := by
    have before := fair.opened m session found
    unfold State.deals
    simp only [List.length_append, List.length_singleton]
    omega
  closed m session t found is_closed := by
    have before := fair.closed m session t found is_closed
    unfold State.deals
    simp only [List.length_append, List.length_singleton]
    omega
  open_at k other m dealt := by
    rcases getElem?_concat_cases dealt with earlier | ⟨last, is⟩
    · exact fair.open_at k other m earlier
    · obtain ⟨_same, rfl⟩ := Prod.mk.inj is
      obtain ⟨session, found, still⟩ := isOpen
      refine ⟨session, found, last ▸ fair.opened m session found, ?_⟩
      intro t is_closed
      rw [still] at is_closed
      cases is_closed
  kept k other m dealt still := by
    unfold State.deals
    simp only
    rcases getElem?_concat_cases dealt with earlier | ⟨_last, is⟩
    · have current := fair.kept k other m earlier still
      by_cases same : other = source
      · rw [same, Function.update_self, stays m (same ▸ current)]
      · rw [Function.update_of_ne same]
        exact current
    · obtain ⟨rfl, rfl⟩ := Prod.mk.inj is
      exact Function.update_self _ _ _
  sticky k l other m later less first second := by
    have within : k < s.dealt.length := by
      have bound := (List.getElem?_eq_some_iff.mp second).1
      unfold State.deals at bound
      rw [List.length_append, List.length_singleton] at bound
      omega
    have before : s.dealt[k]? = some (other, m) :=
      (List.getElem?_append_left within).symm.trans first
    rcases getElem?_concat_cases second with earlier | ⟨last, is⟩
    · exact fair.sticky k l other m later less before earlier
    · obtain ⟨rfl, rfl⟩ := Prod.mk.inj is
      obtain ⟨session, found, open_at⟩ := fair.open_at k other m before
      cases is_closed : session.closed with
      | none => exact Or.inl (stays m (fair.kept k other m before ⟨session, found, is_closed⟩)).symm
      | some t =>
          exact Or.inr ⟨session, t, found, is_closed, open_at.closed t is_closed,
            last ▸ fair.closed m session t found is_closed⟩

inductive Step : State Source → State Source → Prop
  | opens (s : State Source) : Step s s.opens
  | closes {s : State Source} {n : Nat} (isOpen : s.Open n) : Step s (s.closes n)
  | deals {s : State Source} {source : Source} {n : Nat} (isOpen : s.Open n)
      (stays : ∀ other, s.current source = some other → other = n) : Step s (s.deals source n)

abbrev Steps : State Source → State Source → Prop := Relation.ReflTransGen Step

theorem Step.fair (step : Step s next) (fair : Fair s) : Fair next := by
  cases step with
  | opens => exact fair.opens
  | closes isOpen => exact fair.closes isOpen
  | deals isOpen stays => exact fair.deals isOpen stays

theorem Steps.fair (steps : Steps s next) (fair : Fair s) : Fair next := by
  induction steps with
  | refl => exact fair
  | tail _before step ih => exact step.fair ih

/-! ### What a session is due -/

section due

variable {Item Message : Type}

def share (n : Nat) (items : List Item) (dealt : List (Source × Nat)) : List Item :=
  (items.zip dealt).filterMap (fun both => if both.2.2 = n then some both.1 else none)

instance (session : Session) (k : Nat) : Decidable (session.OpenAt k) :=
  decidable_of_iff (session.opened ≤ k ∧ ∀ t ∈ session.closed, k < t)
    ⟨fun both => ⟨both.1, both.2⟩, fun isOpen => ⟨isOpen.opened, isOpen.closed⟩⟩

/-- The first item is announced to all sessions that are open then, and each item
is dealt to one of them. -/
def due (announce deal : Item → Message) (items : List Item) (dealt : List (Source × Nat))
    (n : Nat) (session : Session) : List Message :=
  (if session.OpenAt 0 then (items.take 1).map announce else []) ++
    (share n items dealt).map deal

omit [DecidableEq Source]

variable {n m : Nat} {items : List Item} {dealt : List (Source × Nat)}

private theorem share_concat (together : items.length = dealt.length) (item : Item)
    (source : Source) :
    share n (items ++ [item]) (dealt ++ [(source, m)]) =
      share n items dealt ++ if m = n then [item] else [] := by
  unfold share
  rw [List.zip_append together, List.filterMap_append]
  congr 1
  by_cases own : m = n
  · simp [own]
  · simp [own]

private theorem share_absent (absent : ∀ pair ∈ dealt, pair.2 ≠ n) : share n items dealt = [] := by
  apply List.filterMap_eq_nil_iff.mpr
  intro both member
  exact if_neg (absent both.2 (List.of_mem_zip member).2)

variable (announce deal : Item → Message)

theorem due_opened (absent : ∀ pair ∈ dealt, pair.2 ≠ n) :
    due announce deal items dealt n { opened := items.length } = [] := by
  unfold due
  rw [share_absent absent, List.map_nil, List.append_nil]
  cases items with
  | nil => exact ite_self _
  | cons item later =>
      rw [if_neg]
      intro isOpen
      cases isOpen.opened

theorem due_closed {session : Session} (isOpen : session.closed = none) :
    due announce deal items dealt n { session with closed := some items.length } =
      due announce deal items dealt n session := by
  unfold due
  congr 1
  cases items with
  | nil => rw [List.take_nil, List.map_nil, ite_self, ite_self]
  | cons item later =>
      have same : Session.OpenAt { session with closed := some (item :: later).length } 0 ↔
          session.OpenAt 0 := by
        constructor
        · intro open_at
          refine ⟨open_at.opened, fun t is_closed => ?_⟩
          rw [isOpen] at is_closed
          cases is_closed
        · intro open_at
          refine ⟨open_at.opened, fun t is_closed => ?_⟩
          rw [← Option.some.inj is_closed]
          exact Nat.succ_pos _
      simp only [same]

theorem due_concat (together : items.length = dealt.length) {session : Session}
    (opened : session.opened ≤ items.length)
    (closed : ∀ t, session.closed = some t → t ≤ items.length) (item : Item) (source : Source) :
    due announce deal (items ++ [item]) (dealt ++ [(source, m)]) n session =
      due announce deal items dealt n session ++
        ((if items = [] ∧ session.closed = none then [announce item] else []) ++
          if m = n then [deal item] else []) := by
  unfold due
  rw [share_concat together, List.map_append]
  have dealt_one : (if m = n then [item] else []).map deal = if m = n then [deal item] else [] := by
    split
    · rfl
    · rfl
  rw [dealt_one]
  cases items with
  | nil =>
      have none_dealt : dealt = [] := List.length_eq_zero_iff.mp together.symm
      rw [none_dealt]
      have same : session.OpenAt 0 ↔ ([] : List Item) = [] ∧ session.closed = none := by
        constructor
        · intro isOpen
          refine ⟨rfl, ?_⟩
          cases is_closed : session.closed with
          | none => rfl
          | some t => exact absurd (isOpen.closed t is_closed) (Nat.not_lt.mpr (closed t is_closed))
        · rintro ⟨_empty, still⟩
          refine ⟨opened, fun t is_closed => ?_⟩
          rw [still] at is_closed
          cases is_closed
      simp only [same, List.take_nil, List.map_nil, ite_self, List.nil_append, share,
        List.zip_nil_left, List.filterMap_nil, List.take_succ_cons, List.map_cons]
  | cons first later =>
      have later_one : ¬ (first :: later = [] ∧ session.closed = none) :=
        fun impossible => List.cons_ne_nil _ _ impossible.1
      rw [if_neg later_one, List.nil_append, ← List.append_assoc]
      rfl

end due

end Sessions
