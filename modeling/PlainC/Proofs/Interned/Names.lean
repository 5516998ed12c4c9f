import Mathlib.Data.List.Nodup
import PlainC.Proofs.Declaring.Names
import PlainC.Proofs.Interned.Basic

set_option autoImplicit false

/-!
Handles and the texts that they stand for. The laws of giving them out are those of an interner, and
the list of the names that were met has them. So a table gives each text one handle, the handles that
it has given keep their texts, and a symbol that was entered reads back as it was written.
-/

namespace PlainC

/-! ### Handing out handles -/

/-- Handles for texts: what is done with the names that were met, and the laws of it, from which all
that is known of handles follows. -/
structure Interner (Names : Type) where
  /-- The handle of a text that was met. -/
  handle? : Names → String → Option Nat
  /-- The handle of a text, which is given to it now if it was not met. -/
  intern : Names → String → Nat × Names
  /-- The text that a handle stands for. -/
  resolve? : Names → Nat → Option String
  /-- The first names are the second ones and those that were met since. -/
  Extends : Names → Names → Prop
  /-- No text was given two handles. -/
  Distinct : Names → Prop
  resolve?_of_handle? : ∀ {names text handle},
    handle? names text = some handle → resolve? names handle = some text
  handle?_of_resolve? : ∀ {names text handle},
    resolve? names handle = some text → ∃ other, handle? names text = some other
  intern_of_handle? : ∀ {names text handle},
    handle? names text = some handle → intern names text = (handle, names)
  resolve?_intern : ∀ names text,
    resolve? (intern names text).2 (intern names text).1 = some text
  extends_intern : ∀ names text, Extends (intern names text).2 names
  resolve?_of_extends : ∀ {names names' text handle},
    Extends names' names → resolve? names handle = some text → resolve? names' handle = some text
  handle?_of_extends : ∀ {names names' text handle},
    Extends names' names → handle? names text = some handle → handle? names' text = some handle
  distinct_intern : ∀ {names}, Distinct names → ∀ text, Distinct (intern names text).2
  eq_of_resolve? : ∀ {names text handle other}, Distinct names →
    resolve? names handle = some text → resolve? names other = some text → handle = other

namespace Interner

variable {Names : Type} (interner : Interner Names) {names : Names} {text : String} {handle : Nat}

theorem handle?_eq_some_iff (distinct : interner.Distinct names) :
    interner.handle? names text = some handle ↔ interner.resolve? names handle = some text := by
  refine ⟨interner.resolve?_of_handle?, fun resolved => ?_⟩
  obtain ⟨other, found⟩ := interner.handle?_of_resolve? resolved
  rw [interner.eq_of_resolve? distinct resolved (interner.resolve?_of_handle? found), found]

theorem intern_of_resolve? (distinct : interner.Distinct names)
    (resolved : interner.resolve? names handle = some text) :
    interner.intern names text = (handle, names) :=
  interner.intern_of_handle? ((interner.handle?_eq_some_iff distinct).mpr resolved)

end Interner

/-- The names in the order in which they were met, each of which has its position as its handle. -/
def nameList : Interner (List String) where
  handle? names text := names.findIdx? (· = text)
  intern names text :=
    match names.findIdx? (· = text) with
    | some handle => (handle, names)
    | none => (names.length, names ++ [text])
  resolve? names handle := names[handle]?
  Extends names' names := names <+: names'
  Distinct names := names.Nodup
  resolve?_of_handle? found := by
    obtain ⟨inside, isText, -⟩ := List.findIdx?_eq_some_iff_getElem.mp found
    rw [List.getElem?_eq_getElem inside]
    exact congrArg some (of_decide_eq_true isText)
  handle?_of_resolve? resolved := by
    refine Option.ne_none_iff_exists'.mp fun none => ?_
    rw [List.findIdx?_eq_none_iff] at none
    exact of_decide_eq_false (none _ (List.mem_of_getElem? resolved)) rfl
  intern_of_handle? found := by simp only [found]
  resolve?_intern names text := by
    cases found : names.findIdx? (· = text) with
    | none => simp
    | some handle =>
      obtain ⟨inside, isText, -⟩ := List.findIdx?_eq_some_iff_getElem.mp found
      rw [List.getElem?_eq_getElem inside]
      exact congrArg some (of_decide_eq_true isText)
  extends_intern names text := by
    cases names.findIdx? (· = text) with
    | none => exact List.prefix_append ..
    | some handle => exact List.prefix_rfl
  resolve?_of_extends more resolved := by
    obtain ⟨inside, rfl⟩ := List.getElem?_eq_some_iff.mp resolved
    exact List.prefix_iff_getElem?.mp more _ inside
  handle?_of_extends more found := by
    obtain ⟨behind, rfl⟩ := more
    rw [List.findIdx?_append, found]
    rfl
  distinct_intern {names} distinct text := by
    cases found : names.findIdx? (· = text) with
    | some handle => exact distinct
    | none =>
      rw [List.findIdx?_eq_none_iff] at found
      refine List.nodup_append.mpr ⟨distinct, List.nodup_singleton text, ?_⟩
      rintro other among _ isText rfl
      obtain rfl := List.mem_singleton.mp isText
      exact of_decide_eq_false (found _ among) rfl
  eq_of_resolve? distinct resolved resolved' := by
    obtain ⟨inside, -⟩ := List.getElem?_eq_some_iff.mp resolved
    exact (List.getElem?_inj inside distinct).mp (resolved.trans resolved'.symm)

theorem exists_resolve?_iff {names : List String} {text : String} :
    (∃ handle, nameList.resolve? names handle = some text) ↔ text ∈ names :=
  List.mem_iff_getElem?.symm

theorem handle?_nameList_eq_none_iff {names : List String} {text : String} :
    nameList.handle? names text = none ↔ text ∉ names := by
  rw [← exists_resolve?_iff, Option.eq_none_iff_forall_not_mem]
  constructor
  · rintro none ⟨handle, resolved⟩
    obtain ⟨other, found⟩ := nameList.handle?_of_resolve? resolved
    exact none other found
  · exact fun others handle found => others ⟨handle, nameList.resolve?_of_handle? found⟩

theorem intern_nameList_of_new {names : List String} {text : String}
    (new : nameList.handle? names text = none) :
    nameList.intern names text = (names.length, names ++ [text]) := by
  have unfound : names.findIdx? (· = text) = none := new
  simp only [nameList, unfound]

/-! ### The names that were met -/

namespace SymbolTable

variable {table : SymbolTable}

/-- A table meets names as the list of names does. -/
theorem names_intern (table : SymbolTable) (name : String) :
    (table.intern name).names = (nameList.intern table.names name).2 := by
  cases found : nameList.handle? table.names name with
  | none =>
    rw [intern_nameList_of_new found, intern, if_neg (handle?_nameList_eq_none_iff.mp found)]
  | some handle =>
    have met := exists_resolve?_iff.mp ⟨handle, nameList.resolve?_of_handle? found⟩
    rw [nameList.intern_of_handle? found, intern, if_pos met]

theorem mem_names_intern {name other : String} :
    other ∈ (table.intern name).names ↔ other ∈ table.names ∨ other = name := by
  unfold intern
  split
  · case isTrue met =>
      constructor
      · exact .inl
      · rintro (among | rfl)
        · exact among
        · exact met
  · simp

theorem prefix_intern (table : SymbolTable) (name : String) :
    table.names <+: (table.intern name).names := by
  rw [names_intern]
  exact nameList.extends_intern table.names name

theorem nodup_intern (distinct : table.names.Nodup) (name : String) :
    (table.intern name).names.Nodup := by
  rw [names_intern]
  exact nameList.distinct_intern distinct name

@[simp] theorem internAll_nil (table : SymbolTable) : table.internAll [] = table := rfl

@[simp] theorem internAll_cons (table : SymbolTable) (name : String) (names : List String) :
    table.internAll (name :: names) = (table.intern name).internAll names := rfl

theorem internAll_append (table : SymbolTable) (names names' : List String) :
    table.internAll (names ++ names') = (table.internAll names).internAll names' :=
  List.foldl_append

theorem prefix_internAll (table : SymbolTable) (names : List String) :
    table.names <+: (table.internAll names).names := by
  induction names generalizing table with
  | nil => exact List.prefix_rfl
  | cons name names ih => exact (table.prefix_intern name).trans (ih _)

theorem nodup_internAll (distinct : table.names.Nodup) (names : List String) :
    (table.internAll names).names.Nodup := by
  induction names generalizing table with
  | nil => exact distinct
  | cons name names ih => exact ih (nodup_intern distinct name)

theorem mem_names_internAll {names : List String} {other : String} :
    other ∈ (table.internAll names).names ↔ other ∈ table.names ∨ other ∈ names := by
  induction names generalizing table with
  | nil => simp
  | cons name names ih => rw [internAll_cons, ih, mem_names_intern, List.mem_cons, or_assoc]

/-- Names that were met already change nothing. -/
theorem internAll_eq_self {names : List String} (met : ∀ name ∈ names, name ∈ table.names) :
    table.internAll names = table := by
  induction names with
  | nil => rfl
  | cons name names ih =>
    have same : table.intern name = table := if_pos (met name List.mem_cons_self)
    rw [internAll_cons, same]
    exact ih fun other among => met other (List.mem_cons_of_mem _ among)

/-- Which names are met does not depend on the symbols, and the symbols stay. -/
theorem internAll_eq (table : SymbolTable) (names : List String) : table.internAll names =
    ⟨(SymbolTable.internAll ⟨table.names, []⟩ names).names, table.symbols⟩ := by
  have same : (table.internAll names).names =
      (SymbolTable.internAll ⟨table.names, []⟩ names).names := by
    apply names_internAll_congr
    rfl
  rw [← same, ← table.symbols_internAll names]

/-- Names that are met again in front of a declaration change nothing. -/
theorem add_internAll {symbol : Symbol} :
    (table.internAll symbol.names).add symbol = table.add symbol := by
  have known : (table.internAll symbol.names).internAll symbol.names =
      table.internAll symbol.names := by
    refine internAll_eq_self fun name among => ?_
    exact mem_names_internAll.mpr (.inr among)
  rw [add, add, known]

end SymbolTable

namespace Interned

/-! ### Handles in symbols -/

mutual

/-- All handles in a symbol: its own, those in its arguments, and those in its members. -/
def Symbol.handles : Symbol → List Nat
  | ⟨name, _, _, _, _, _, args, members⟩ => name :: (handlesOfList args ++ handlesOfList members)

def handlesOfList : List Symbol → List Nat
  | [] => []
  | symbol :: rest => symbol.handles ++ handlesOfList rest

end

theorem handlesOfList_append (symbols symbols' : List Symbol) :
    handlesOfList (symbols ++ symbols') = handlesOfList symbols ++ handlesOfList symbols' := by
  induction symbols with
  | nil => rfl
  | cons symbol rest ih => rw [List.cons_append, handlesOfList, ih, handlesOfList, List.append_assoc]

mutual

/-- A symbol with texts in place of its handles. -/
def Symbol.texts (text : Nat → String) : Symbol → PlainC.Symbol
  | ⟨name, cls, ty, storage, depth, line, args, members⟩ =>
    ⟨text name, cls, ty, storage, depth, line, textsOfList text args, textsOfList text members⟩

def textsOfList (text : Nat → String) : List Symbol → List PlainC.Symbol
  | [] => []
  | symbol :: rest => symbol.texts text :: textsOfList text rest

end

theorem textsOfList_eq_map (text : Nat → String) (symbols : List Symbol) :
    textsOfList text symbols = symbols.map (Symbol.texts text) := by
  induction symbols with
  | nil => rfl
  | cons symbol rest ih => rw [textsOfList, ih, List.map_cons]

section

variable {text : Nat → String} (symbol : Symbol)

@[simp] theorem Symbol.texts_name : (symbol.texts text).name = text symbol.name := by
  cases symbol; rfl

@[simp] theorem Symbol.texts_cls : (symbol.texts text).cls = symbol.cls := by
  cases symbol; rfl

@[simp] theorem Symbol.texts_depth : (symbol.texts text).depth = symbol.depth := by
  cases symbol; rfl

@[simp] theorem Symbol.texts_line : (symbol.texts text).line = symbol.line := by
  cases symbol; rfl

theorem Symbol.name_mem_handles : symbol.name ∈ symbol.handles := by
  cases symbol; simp [Symbol.handles]

end

section

variable {text text' : Nat → String}

mutual

theorem Symbol.texts_congr : ∀ (symbol : Symbol),
    (∀ handle ∈ symbol.handles, text handle = text' handle) →
      symbol.texts text = symbol.texts text'
  | ⟨name, cls, ty, storage, depth, line, args, members⟩, same => by
    simp only [Symbol.handles, List.mem_cons, List.mem_append] at same
    rw [Symbol.texts, Symbol.texts, same name (.inl rfl),
      textsOfList_congr args fun handle among => same handle (.inr (.inl among)),
      textsOfList_congr members fun handle among => same handle (.inr (.inr among))]

theorem textsOfList_congr : ∀ (symbols : List Symbol),
    (∀ handle ∈ handlesOfList symbols, text handle = text' handle) →
      textsOfList text symbols = textsOfList text' symbols
  | [], _ => rfl
  | symbol :: rest, same => by
    simp only [handlesOfList, List.mem_append] at same
    rw [textsOfList, textsOfList,
      Symbol.texts_congr symbol fun handle among => same handle (.inl among),
      textsOfList_congr rest fun handle among => same handle (.inr among)]

end

mutual

theorem Symbol.names_texts : ∀ (symbol : Symbol),
    (symbol.texts text).names = symbol.handles.map text
  | ⟨name, cls, ty, storage, depth, line, args, members⟩ => by
    rw [Symbol.texts, PlainC.Symbol.names, Symbol.handles, List.map_cons, List.map_append,
      namesOfList_texts args, namesOfList_texts members]

theorem namesOfList_texts : ∀ (symbols : List Symbol),
    PlainC.Symbol.namesOfList (textsOfList text symbols) = (handlesOfList symbols).map text
  | [] => rfl
  | symbol :: rest => by
    rw [textsOfList, PlainC.Symbol.namesOfList, handlesOfList, List.map_append,
      Symbol.names_texts symbol, namesOfList_texts rest]

end

end

/-! ### Handles of a table -/

namespace Table

/-- The table has given a handle. -/
def Given (table : Table) (handle : Nat) : Prop := handle < table.names.length

/-- The second table knows all handles that the first one has given. -/
def Extends (table' table : Table) : Prop := table.names <+: table'.names

variable {table table' : Table} {text : String} {handle : Nat}

theorem resolve?_eq_some_iff : nameList.resolve? table.names handle = some text ↔
    table.Given handle ∧ table.resolve handle = text := by
  constructor
  · intro resolved
    have at_handle : table.names[handle]? = some text := resolved
    refine ⟨(List.getElem?_eq_some_iff.mp at_handle).1, ?_⟩
    rw [resolve, at_handle, Option.getD_some]
  · rintro ⟨given, rfl⟩
    have at_handle := List.getElem?_eq_getElem given
    rw [resolve, at_handle, Option.getD_some]
    exact at_handle

theorem Given.resolve? (given : table.Given handle) :
    nameList.resolve? table.names handle = some (table.resolve handle) :=
  resolve?_eq_some_iff.mpr ⟨given, rfl⟩

theorem Extends.given (more : table'.Extends table) (given : table.Given handle) :
    table'.Given handle :=
  (resolve?_eq_some_iff.mp (nameList.resolve?_of_extends more given.resolve?)).1

theorem Extends.resolve_eq (more : table'.Extends table) (given : table.Given handle) :
    table'.resolve handle = table.resolve handle :=
  (resolve?_eq_some_iff.mp (nameList.resolve?_of_extends more given.resolve?)).2

theorem Extends.texts_eq (more : table'.Extends table) {symbol : Symbol}
    (given : ∀ handle ∈ symbol.handles, table.Given handle) :
    symbol.texts table'.resolve = symbol.texts table.resolve :=
  symbol.texts_congr fun handle among => more.resolve_eq (given handle among)

theorem Extends.textsOfList_eq (more : table'.Extends table) {symbols : List Symbol}
    (given : ∀ handle ∈ handlesOfList symbols, table.Given handle) :
    textsOfList table'.resolve symbols = textsOfList table.resolve symbols :=
  textsOfList_congr symbols fun handle among => more.resolve_eq (given handle among)

theorem handle?_spec (found : table.handle? text = some handle) :
    table.Given handle ∧ table.resolve handle = text :=
  resolve?_eq_some_iff.mp (nameList.resolve?_of_handle? found)

theorem handle?_eq_none_iff : table.handle? text = none ↔ text ∉ table.names :=
  handle?_nameList_eq_none_iff

theorem resolve_mem (given : table.Given handle) : table.resolve handle ∈ table.names :=
  exists_resolve?_iff.mp ⟨handle, given.resolve?⟩

/-- Different handles stand for different texts. -/
theorem resolve_inj (distinct : table.names.Nodup) {other : Nat} (given : table.Given handle)
    (given' : table.Given other) (same : table.resolve handle = table.resolve other) :
    handle = other :=
  nameList.eq_of_resolve? distinct given.resolve? (same ▸ given'.resolve?)

/-- A table meets a text as the list of names does. -/
theorem intern_eq (table : Table) (text : String) :
    table.intern text = ((nameList.intern table.names text).1,
      { table with names := (nameList.intern table.names text).2 }) := by
  cases found : table.handle? text with
  | none => rw [intern, found, intern_nameList_of_new found]
  | some handle => rw [intern, found, nameList.intern_of_handle? found]

@[simp] theorem symbols_intern (table : Table) (text : String) :
    (table.intern text).2.symbols = table.symbols := by
  rw [intern_eq]

/-- The texts that a table has met are those of a table with texts. -/
theorem names_intern (table : Table) (text : String) :
    (table.intern text).2.names = (SymbolTable.intern ⟨table.names, []⟩ text).names := by
  rw [SymbolTable.names_intern, intern_eq]

theorem extends_intern (table : Table) (text : String) : (table.intern text).2.Extends table := by
  rw [intern_eq]
  exact nameList.extends_intern table.names text

theorem intern_spec (table : Table) (text : String) :
    (table.intern text).2.Given (table.intern text).1 ∧
      (table.intern text).2.resolve (table.intern text).1 = text := by
  rw [intern_eq]
  exact resolve?_eq_some_iff.mp (nameList.resolve?_intern table.names text)

/-- A text that has a handle keeps it. -/
theorem intern_resolve (distinct : table.names.Nodup) (given : table.Given handle) :
    table.intern (table.resolve handle) = (handle, table) := by
  rw [intern_eq, nameList.intern_of_resolve? distinct given.resolve?]

end Table

/-! ### Entering symbols -/

namespace Table

variable {table : Table}

/-- What entering gives: the symbols of the table are the same, it has met the names in order, and
the handles that came out are its own and stand for what was written. -/
structure Entered (table : Table) (names : List String) (handles : List Nat) (table' : Table) :
    Prop where
  symbols : table'.symbols = table.symbols
  names : table'.names = (SymbolTable.internAll ⟨table.names, []⟩ names).names
  given : ∀ handle ∈ handles, table'.Given handle

theorem Entered.extends {names : List String} {handles : List Nat} {table' : Table}
    (entered : table.Entered names handles table') : table'.Extends table := by
  rw [Extends, entered.names]
  exact SymbolTable.prefix_internAll ⟨table.names, []⟩ names

theorem Entered.append {names names' : List String} {handles handles' : List Nat}
    {table' table'' : Table} (first : table.Entered names handles table')
    (next : table'.Entered names' handles' table'') :
    table.Entered (names ++ names') (handles ++ handles') table'' where
  symbols := next.symbols.trans first.symbols
  names := by
    rw [next.names, SymbolTable.internAll_append]
    exact SymbolTable.names_internAll_congr first.names names'
  given := by
    intro handle among
    rcases List.mem_append.mp among with among | among
    · exact next.extends.given (first.given handle among)
    · exact next.given handle among

theorem entered_intern (table : Table) (text : String) :
    table.Entered [text] [(table.intern text).1] (table.intern text).2 where
  symbols := table.symbols_intern text
  names := table.names_intern text
  given := by simpa using (table.intern_spec text).1

theorem entered_nil (table : Table) : table.Entered [] [] table where
  symbols := rfl
  names := rfl
  given := by simp

mutual

theorem enter_spec : ∀ (symbol : PlainC.Symbol) (table : Table),
    table.Entered symbol.names (table.enter symbol).1.handles (table.enter symbol).2 ∧
      (table.enter symbol).1.texts (table.enter symbol).2.resolve = symbol
  | ⟨name, cls, ty, storage, depth, line, args, members⟩, table => by
    have named := table.entered_intern name
    have is_name := (table.intern_spec name).2
    simp only [enter, PlainC.Symbol.names, Symbol.handles, Symbol.texts]
    generalize table.intern name = interned at named is_name ⊢
    obtain ⟨arguments, arguments_same⟩ := enterAll_spec args interned.2
    generalize interned.2.enterAll args = interned' at arguments arguments_same ⊢
    obtain ⟨fields, fields_same⟩ := enterAll_spec members interned'.2
    generalize interned'.2.enterAll members = interned'' at fields fields_same ⊢
    refine ⟨named.append (arguments.append fields), ?_⟩
    rw [fields_same, fields.extends.textsOfList_eq arguments.given, arguments_same,
      (arguments.append fields).extends.resolve_eq (named.given _ List.mem_cons_self), is_name]

theorem enterAll_spec : ∀ (symbols : List PlainC.Symbol) (table : Table),
    table.Entered (PlainC.Symbol.namesOfList symbols) (handlesOfList (table.enterAll symbols).1)
        (table.enterAll symbols).2 ∧
      textsOfList (table.enterAll symbols).2.resolve (table.enterAll symbols).1 = symbols
  | [], table => ⟨table.entered_nil, rfl⟩
  | symbol :: rest, table => by
    obtain ⟨first, first_same⟩ := enter_spec symbol table
    simp only [enterAll, PlainC.Symbol.namesOfList, handlesOfList, textsOfList]
    generalize table.enter symbol = entered at first first_same ⊢
    obtain ⟨others, others_same⟩ := enterAll_spec rest entered.2
    generalize entered.2.enterAll rest = entered' at others others_same ⊢
    refine ⟨first.append others, ?_⟩
    rw [others_same, others.extends.texts_eq first.given, first_same]

end

section

variable (symbol : PlainC.Symbol)

@[simp] theorem symbols_enter : (table.enter symbol).2.symbols = table.symbols :=
  (enter_spec symbol table).1.symbols

theorem extends_enter : (table.enter symbol).2.Extends table :=
  (enter_spec symbol table).1.extends

theorem given_enter :
    ∀ handle ∈ (table.enter symbol).1.handles, (table.enter symbol).2.Given handle :=
  (enter_spec symbol table).1.given

@[simp] theorem texts_enter :
    (table.enter symbol).1.texts (table.enter symbol).2.resolve = symbol :=
  (enter_spec symbol table).2

end

mutual

/-- Every symbol whose handles were given comes out of entering its texts, so that nothing that can
be put into the table is left out by putting in texts only. -/
theorem enter_texts (distinct : table.names.Nodup) : ∀ (symbol : Symbol),
    (∀ handle ∈ symbol.handles, table.Given handle) →
      table.enter (symbol.texts table.resolve) = (symbol, table)
  | ⟨name, cls, ty, storage, depth, line, args, members⟩, given => by
    simp only [Symbol.handles, List.mem_cons, List.mem_append] at given
    simp only [Symbol.texts, enter, intern_resolve distinct (given name (.inl rfl)),
      enterAll_texts distinct args fun handle among => given handle (.inr (.inl among)),
      enterAll_texts distinct members fun handle among => given handle (.inr (.inr among))]

theorem enterAll_texts (distinct : table.names.Nodup) : ∀ (symbols : List Symbol),
    (∀ handle ∈ handlesOfList symbols, table.Given handle) →
      table.enterAll (textsOfList table.resolve symbols) = (symbols, table)
  | [], _ => rfl
  | symbol :: rest, given => by
    simp only [handlesOfList, List.mem_append] at given
    simp only [textsOfList, enterAll,
      enter_texts distinct symbol fun handle among => given handle (.inl among),
      enterAll_texts distinct rest fun handle among => given handle (.inr among)]

end

end Table

end Interned

end PlainC
