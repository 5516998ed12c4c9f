import Mathlib.Data.List.Forall2
import PlainC.SymbolTable.Basic

set_option autoImplicit false

/-!
Looking up: what is found is the most recent symbol that passes the test. In lists whose elements are
related in pairs, what is found in the one stands for what is found in the other.
-/

namespace PlainC

theorem lastIndex?_cases {α : Type} (test : α → Bool) (as : List α) :
    (∃ (before : List α) (a : α) (behind : List α), as = before ++ a :: behind ∧
      lastIndex? test as = some before.length ∧ test a = true ∧ ∀ b ∈ behind, test b = false) ∨
    (lastIndex? test as = none ∧ ∀ a ∈ as, test a = false) := by
  induction as with
  | nil => exact .inr ⟨rfl, by simp⟩
  | cons c as ih =>
    rcases ih with ⟨before, a, behind, rfl, found, passes, others⟩ | ⟨none, others⟩
    · exact .inl ⟨c :: before, a, behind, rfl, by simp [lastIndex?, found], passes, others⟩
    · cases passes : test c with
      | true => exact .inl ⟨[], c, as, rfl, by simp [lastIndex?, none, passes], passes, others⟩
      | false => exact .inr ⟨by simp [lastIndex?, none, passes], by simpa [passes] using others⟩

theorem lastIndex?_eq_some_iff {α : Type} {test : α → Bool} {as : List α} {index : Nat} :
    lastIndex? test as = some index ↔ ∃ a, as[index]? = some a ∧ test a = true ∧
      ∀ i b, index < i → as[i]? = some b → test b = false := by
  rcases lastIndex?_cases test as with
      ⟨before, a, behind, rfl, found, passes, others⟩ | ⟨none, others⟩
  · have later : ∀ i b, before.length < i → (before ++ a :: behind)[i]? = some b →
        test b = false := by
      intro i b after at_i
      obtain ⟨count, rfl⟩ := Nat.exists_eq_add_of_lt after
      rw [List.getElem?_append_right (by omega), Nat.add_assoc, Nat.add_sub_cancel_left,
        List.getElem?_cons_succ] at at_i
      exact others b (List.mem_of_getElem? at_i)
    rw [found, Option.some.injEq]
    constructor
    · rintro rfl
      exact ⟨a, by simp, passes, later⟩
    · rintro ⟨c, at_index, passes', last⟩
      rcases Nat.lt_trichotomy before.length index with after | same | earlier
      · simp [later index c after at_index] at passes'
      · exact same
      · simp [last before.length a earlier (by simp)] at passes
  · rw [none]
    constructor
    · intro absent
      cases absent
    · rintro ⟨a, at_index, passes, -⟩
      simp [others a (List.mem_of_getElem? at_index)] at passes

section

variable {α : Type} (test : α → Bool)

theorem lastIndex?_append (as bs : List α) :
    lastIndex? test (as ++ bs) =
      ((lastIndex? test bs).map (as.length + ·)).or (lastIndex? test as) := by
  induction as with
  | nil => simp [lastIndex?]
  | cons a as ih =>
    simp only [List.cons_append, lastIndex?, ih]
    cases lastIndex? test bs with
    | none => simp
    | some i => simp; omega

theorem lastIndex?_of_none {as : List α} (none : ∀ a ∈ as, test a = false) :
    lastIndex? test as = .none := by
  rcases lastIndex?_cases test as with ⟨before, a, behind, rfl, -, passes, -⟩ | ⟨none, -⟩
  · simp [none a (by simp)] at passes
  · exact none

theorem lastIndex?_lt {as : List α} {i : Nat} (found : lastIndex? test as = some i) :
    i < as.length := by
  rcases lastIndex?_cases test as with ⟨before, a, behind, rfl, last, -⟩ | ⟨none, -⟩
  · obtain rfl := Option.some.inj (last.symm.trans found)
    simp
  · cases none.symm.trans found

end

namespace SymbolTable

/-- The symbol with an index passes a test that none behind it passes. -/
def LatestAt (table : SymbolTable) (test : Symbol → Prop) (index : Nat) (symbol : Symbol) : Prop :=
  ∃ before behind, table.symbols = before ++ symbol :: behind ∧ before.length = index ∧
    test symbol ∧ ∀ other ∈ behind, ¬test other

/-- The symbol is the most recent one that passes a test. -/
def Latest (table : SymbolTable) (test : Symbol → Prop) (symbol : Symbol) : Prop :=
  ∃ index, table.LatestAt test index symbol

/-- The symbol is the most recent one of a name. -/
def Named (table : SymbolTable) (name : String) : Symbol → Prop :=
  table.Latest fun symbol => symbol.name = name

variable {table : SymbolTable} {test : Symbol → Bool} {index : Nat} {symbol : Symbol}

theorem LatestAt.get?_eq {test : Symbol → Prop} (h : table.LatestAt test index symbol) :
    table.get? index = some symbol := by
  obtain ⟨before, behind, same, rfl, -, -⟩ := h
  simp [get?, same]

theorem LatestAt.lt_size {test : Symbol → Prop} (h : table.LatestAt test index symbol) :
    index < table.size := by
  obtain ⟨before, behind, same, rfl, -, -⟩ := h
  simp [size, same]

/-- What is latest behind some more symbols is latest without them, if it is not one of them. -/
theorem LatestAt.of_append {table' : SymbolTable} {more : List Symbol} {test : Symbol → Prop}
    (h : table'.LatestAt test index symbol) (same : table'.symbols = table.symbols ++ more)
    (inside : index < table.size) : table.LatestAt test index symbol := by
  obtain ⟨before, behind, parts, rfl, passes, others⟩ := h
  have front : table.symbols = (before ++ symbol :: behind).take table.size := by
    rw [← parts, same, size, List.take_left]
  obtain ⟨count, enough⟩ := Nat.exists_eq_add_of_lt inside
  rw [enough, Nat.add_assoc, List.take_length_add_append, List.take_succ_cons] at front
  exact ⟨before, behind.take count, front, rfl, passes,
    fun other mem => others other (List.mem_of_mem_take mem)⟩

theorem lastIndex?_iff :
    lastIndex? test table.symbols = some index ↔
      ∃ symbol, table.LatestAt (fun symbol => test symbol = true) index symbol := by
  constructor
  · intro h
    rcases lastIndex?_cases test table.symbols with
        ⟨before, symbol, behind, same, found, passes, others⟩ | ⟨none, -⟩
    · obtain rfl := Option.some.inj (found.symm.trans h)
      exact ⟨symbol, before, behind, same, rfl, passes, by simpa using others⟩
    · simp [none] at h
  · rintro ⟨symbol, before, behind, same, rfl, passes, others⟩
    rw [same]
    clear same
    induction before with
    | nil =>
      rcases lastIndex?_cases test behind with ⟨_, a, _, rfl, -, passes', -⟩ | ⟨none, -⟩
      · exact absurd passes' (others a (by simp))
      · simp [lastIndex?, none, passes]
    | cons c before ih => simp [lastIndex?, ih]

theorem findLast?_iff :
    table.findLast? test = some symbol ↔ table.Latest (fun symbol => test symbol = true) symbol := by
  unfold findLast?
  rw [Option.bind_eq_some_iff]
  constructor
  · rintro ⟨index, found, get⟩
    obtain ⟨other, latest⟩ := lastIndex?_iff.mp found
    obtain rfl := Option.some.inj (latest.get?_eq.symm.trans get)
    exact ⟨index, latest⟩
  · rintro ⟨index, latest⟩
    exact ⟨index, lastIndex?_iff.mpr ⟨symbol, latest⟩, latest.get?_eq⟩

theorem findLast?_eq_none_iff :
    table.findLast? test = none ↔ ∀ symbol ∈ table.symbols, test symbol = false := by
  rcases lastIndex?_cases test table.symbols with
      ⟨before, symbol, behind, same, found, passes, -⟩ | ⟨none, others⟩
  · simp only [findLast?, found, Option.bind_some, get?]
    constructor
    · simp [same]
    · intro none
      have failed := none symbol (by simp [same])
      simp [failed] at passes
  · simpa [findLast?, none] using others

theorem find?_iff {name : String} : table.find? name = some symbol ↔ table.Named name symbol := by
  simp [find?, findLast?_iff, Named]

theorem findStruct?_iff {name : String} :
    table.findStruct? name = some index ↔ ∃ symbol,
      table.LatestAt (fun symbol => symbol.name = name ∧ symbol.cls = .struct) index symbol := by
  simp [findStruct?, lastIndex?_iff]

end SymbolTable

/-! ### Lists in pairs -/

section

variable {α β : Type} {R : α → β → Prop} {as : List α} {bs : List β}

theorem rel_cases {a? : Option α} {b? : Option β} (related : Option.Rel R a? b?) :
    (a? = none ∧ b? = none) ∨ ∃ a b, a? = some a ∧ b? = some b ∧ R a b := by
  cases related with
  | none => exact .inl ⟨rfl, rfl⟩
  | some same => exact .inr ⟨_, _, rfl, rfl, same⟩

theorem rel_filter {a? : Option α} {b? : Option β} {test : α → Bool} {test' : β → Bool}
    (related : Option.Rel R a? b?) (same : ∀ a b, R a b → test' b = test a) :
    Option.Rel R (a?.filter test) (b?.filter test') := by
  cases related with
  | none => exact .none
  | some head =>
    simp only [Option.filter_some, same _ _ head]
    split
    · exact .some head
    · exact .none

theorem exists_of_mem_right {b : β} (related : List.Forall₂ R as bs) (among : b ∈ bs) :
    ∃ a ∈ as, R a b := by
  induction related with
  | nil => cases among
  | cons head _ ih =>
    rcases List.mem_cons.mp among with rfl | among
    · exact ⟨_, List.mem_cons_self, head⟩
    · obtain ⟨a, inside, related⟩ := ih among
      exact ⟨a, List.mem_cons_of_mem _ inside, related⟩

theorem rel_getElem? (related : List.Forall₂ R as bs) (i : Nat) : Option.Rel R as[i]? bs[i]? := by
  induction related generalizing i with
  | nil => exact .none
  | cons head _ ih =>
    cases i with
    | zero => exact .some head
    | succ i => simpa using ih i

theorem lastIndex?_eq_of_forall₂ {test : α → Bool} {test' : β → Bool}
    (related : List.Forall₂ R as bs) (same : ∀ a b, R a b → test' b = test a) :
    lastIndex? test' bs = lastIndex? test as := by
  induction related with
  | nil => rfl
  | cons head _ ih => simp only [lastIndex?, ih, same _ _ head]

theorem rel_find? {test : α → Bool} {test' : β → Bool} (related : List.Forall₂ R as bs)
    (same : ∀ a b, R a b → test' b = test a) :
    Option.Rel R (as.find? test) (bs.find? test') := by
  induction related with
  | nil => exact .none
  | @cons a b _ _ head _ ih =>
    rw [List.find?_cons, List.find?_cons, same a b head]
    cases test a with
    | true => exact .some head
    | false => exact ih

theorem forall₂_modify {change : α → α} {change' : β → β} (related : List.Forall₂ R as bs)
    (kept : ∀ a b, R a b → R (change a) (change' b)) (i : Nat) :
    List.Forall₂ R (as.modify i change) (bs.modify i change') := by
  induction related generalizing i with
  | nil => simp
  | cons head tail ih =>
    cases i with
    | zero => exact .cons (kept _ _ head) tail
    | succ i => exact .cons head (ih i)

end

end PlainC
