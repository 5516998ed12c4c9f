import PlainC.Proofs.Anchoring.Decl
import PlainC.Proofs.Inserting.Settled
import PlainC.Proofs.Listings.Tokens
import PlainC.Proofs.Literals.Spellings
import PlainC.Proofs.Program.Kinds
import PlainC.Proofs.Program.Table
import PlainC.Proofs.Scanning.Adjacent
import PlainC.Proofs.Structs.Analysis

set_option autoImplicit false

/-!
The listing of a symbol table can be read back. The names in it are words, so the marks behind them
end them, and the table has no name twice, so the name of a struct tells its declaration. What is not
listed follows from the place in the table: the storage of a symbol and its parts, the struct type of a
struct, and the depth of a parameter, which is the number of its function.
-/

namespace PlainC

open Checked

/-! ### Lists -/

section

variable {α β γ : Type} {f : α → γ} {g : β → γ} {as : List α} {bs : List β}

theorem forall₂_of_map_eq (same : as.map f = bs.map g) :
    List.Forall₂ (fun a b => a ∈ as ∧ b ∈ bs ∧ f a = g b) as bs := by
  refine List.forall₂_iff_get.mpr ⟨by simpa using congrArg List.length same, fun i h h' => ?_⟩
  have here := congrArg (·[i]?) same
  refine ⟨List.get_mem as ⟨i, h⟩, List.get_mem bs ⟨i, h'⟩, ?_⟩
  simpa [h, h'] using here

theorem map_eq_of_forall₂ (related : List.Forall₂ (fun a b => f a = g b) as bs) :
    as.map f = bs.map g := by
  induction related with
  | nil => rfl
  | cons same _ ih => rw [List.map_cons, List.map_cons, same, ih]

section

variable {starts : α → Bool} {blocks blocks' : List (α × List α)}

/-- The next block begins with the next thing that passes the test. -/
theorem takeWhile_append_blocks
    (heads : ∀ block ∈ blocks, starts block.1 = true ∧ ∀ a ∈ block.2, starts a = false)
    {rest : List α} (others : ∀ a ∈ rest, starts a = false) :
    (rest ++ blocks.flatMap fun block => block.1 :: block.2).takeWhile (!starts ·) = rest := by
  rw [List.takeWhile_append_of_pos (by simpa using others)]
  cases blocks with
  | nil => simp
  | cons block blocks => simp [(heads block List.mem_cons_self).1]

/-- Blocks one behind the other, each of which begins with the only thing in it that passes a
test, are no other blocks. -/
theorem eq_of_flatMap_blocks
    (heads : ∀ block ∈ blocks, starts block.1 = true ∧ ∀ a ∈ block.2, starts a = false)
    (heads' : ∀ block ∈ blocks', starts block.1 = true ∧ ∀ a ∈ block.2, starts a = false)
    (same : (blocks.flatMap fun block => block.1 :: block.2) =
      blocks'.flatMap fun block => block.1 :: block.2) : blocks = blocks' := by
  induction blocks generalizing blocks' with
  | nil =>
    cases blocks' with
    | nil => rfl
    | cons => cases same
  | cons block blocks ih =>
    cases blocks' with
    | nil => cases same
    | cons block' blocks' =>
      obtain ⟨⟨-, others⟩, heads⟩ := List.forall_mem_cons.mp heads
      obtain ⟨⟨-, others'⟩, heads'⟩ := List.forall_mem_cons.mp heads'
      rw [List.flatMap_cons, List.flatMap_cons, List.cons_append, List.cons_append] at same
      obtain ⟨first, behind⟩ := List.cons.inj same
      have rest := takeWhile_append_blocks heads others
      rw [behind, takeWhile_append_blocks heads' others'] at rest
      rw [rest, List.append_cancel_left_eq] at behind
      rw [ih heads heads' behind, Prod.ext first rest.symm]

end

end

/-! ### Words -/

/-- The name consists of letters, digits and underscores. -/
def IsWord (name : String) : Prop := ∀ c ∈ name.toList, Pattern.isWordChar c = true

instance (name : String) : Decidable (IsWord name) :=
  inferInstanceAs (Decidable (∀ c ∈ name.toList, Pattern.isWordChar c = true))

theorem IsWord.notMem {name : String} (word : IsWord name) {c : Char}
    (other : Pattern.isWordChar c = false) : c ∉ name.toList :=
  fun mem => absurd ((word c mem).symm.trans other) (by decide)

theorem Kind.IsScanned.isWord {name : String} (scanned : (Kind.identifier name).IsScanned) :
    IsWord name := by
  obtain ⟨-, rest, -, matched⟩ := scanned
  obtain ⟨rule, mem, read⟩ := List.exists_of_findSome?_eq_some matched
  obtain ⟨found, made⟩ := LexemeRule.read?_eq_some_iff.mp read
  rw [LexemeRule.pattern_eq_word mem (.inr ⟨_, made⟩)] at found
  have letter : Pattern.Regular (Pattern.one Pattern.isWordStart) :=
    Pattern.regular_one (by decide)
  obtain ⟨front, behind, same, isFirst, others⟩ :=
    (Pattern.regular_word.covers found).of_andThen letter.covers
  obtain ⟨first, rfl, start⟩ := Pattern.covers_one_iff.mp isFirst
  have chars : ∀ c ∈ behind, Pattern.isWordChar c = true := by
    rcases others.of_optionally with rfl | more
    · nofun
    · exact (Pattern.covers_many_iff.mp more).2
  rw [IsWord, show name.toList = first :: behind from same]
  exact List.forall_mem_cons.mpr ⟨by simp [Pattern.isWordChar, start], chars⟩

/-- The names of a symbol and of its parts are words. -/
structure Symbol.HasWords (symbol : Symbol) : Prop where
  name : IsWord symbol.name
  parts : ∀ part ∈ symbol.members ++ symbol.args, IsWord part.name

/-! ### Types -/

namespace Extent

/-- What stands between the brackets. -/
def inside? : Extent → Option (List Char)
  | scalar => none
  | unsized => some []
  | sized size => some (toString size).toList

theorem toList_text (extent : Extent) : extent.text.toList =
    (extent.inside?.map fun size => '[' :: (size ++ [']'])).getD [] := by
  cases extent <;> simp [text, inside?]

theorem inside?_inj {extent extent' : Extent} (same : extent.inside? = extent'.inside?) :
    extent = extent' := by
  have digits (n : Nat) : (toString n).toList ≠ [] := by
    rw [Nat.toString_eq_repr, Nat.toList_repr]
    exact Nat.toDigits_ne_nil
  cases extent <;> cases extent' <;> simp only [inside?, Option.some.injEq, reduceCtorEq] at same ⊢
  · exact absurd same.symm (digits _)
  · exact absurd same (digits _)
  · rw [toString_nat_inj same]

/-- The first bracket ends the name of a base type. -/
theorem append_text_inj {front front' : List Char} {extent extent' : Extent}
    (free : '[' ∉ front) (free' : '[' ∉ front')
    (same : front ++ extent.text.toList = front' ++ extent'.text.toList) :
    front = front' ∧ extent = extent' := by
  rw [toList_text, toList_text] at same
  cases inside : extent.inside? with
  | none =>
    cases inside' : extent'.inside? with
    | none => exact ⟨by simpa [inside, inside'] using same, inside?_inj (inside.trans inside'.symm)⟩
    | some size =>
      have longer : front = front' ++ '[' :: (size ++ [']']) := by simpa [inside, inside'] using same
      exact absurd (by simp [longer]) free
  | some size =>
    cases inside' : extent'.inside? with
    | none =>
      have longer : front' = front ++ '[' :: (size ++ [']']) := by
        simpa [inside, inside'] using same.symm
      exact absurd (by simp [longer]) free'
    | some size' =>
      rw [inside, inside'] at same
      obtain ⟨fronts, sizes⟩ := append_cons_inj free free' same
      obtain rfl := List.append_cancel_right sizes
      exact ⟨fronts, inside?_inj (inside.trans inside'.symm)⟩

end Extent

/-- The first letter of the name of a base type. -/
def Base.initial : Base → Char
  | int => 'i'
  | double => 'd'
  | char => 'c'
  | struct _ => 's'
  | void => 'v'

namespace SymbolTable

/-- The name of a base type. -/
def baseText (table : SymbolTable) (base : Base) : String :=
  match base with
  | .struct index => ((table.structAt? index).map fun struct => "struct " ++ struct.name).getD base.text
  | base => base.text

theorem typeName_eq (table : SymbolTable) (ty : Ty) :
    table.typeName ty = table.baseText ty.base ++ ty.extent.text := by
  obtain ⟨base, extent⟩ := ty
  cases base with
  | struct index => cases found : table.structAt? index <;> simp [typeName, baseText, Ty.structIndex?, found]
  | int | double | char | void => rfl

/-- The symbols have words as names, each of them another one, and their structs are declared. -/
structure Listable (table : SymbolTable) : Prop where
  words : ∀ symbol ∈ table.symbols, symbol.HasWords
  grounded : table.Grounded
  distinct : (table.symbols.map Symbol.name).Nodup

namespace Listable

variable {table table' : SymbolTable} {base base' : Base} {ty ty' : Ty}

theorem baseText_chars (listable : table.Listable) (known : table.Knows base) :
    ∀ c ∈ (table.baseText base).toList, c = ' ' ∨ Pattern.isWordChar c = true := by
  have letters {text : String} (all : text.toList.all fun c => c = ' ' || Pattern.isWordChar c) :
      ∀ c ∈ text.toList, c = ' ' ∨ Pattern.isWordChar c = true := by simpa using all
  cases base with
  | int | double | char | void =>
    simp only [baseText]
    exact letters (by decide)
  | struct index =>
    obtain ⟨-, struct, found⟩ := known index rfl
    have mem := List.mem_of_getElem? (structAt?_iff.mp found).1
    have word := (listable.words struct mem).name
    intro c inside
    rw [baseText, found, Option.map_some, Option.getD_some, String.toList_append] at inside
    rcases List.mem_append.mp inside with label | named
    · exact letters (by decide) c label
    · exact .inr (word c named)

theorem notMem_baseText (listable : table.Listable) (known : table.Knows base) {c : Char}
    (other : c ≠ ' ') (other' : Pattern.isWordChar c = false) : c ∉ (table.baseText base).toList := by
  intro mem
  rcases listable.baseText_chars known c mem with blank | word
  · exact other blank
  · exact absurd (word.symm.trans other') (by decide)

theorem head?_baseText (known : table.Knows base) :
    (table.baseText base).toList.head? = some base.initial := by
  cases base with
  | int | double | char | void =>
    simp only [baseText]
    decide
  | struct index =>
    obtain ⟨-, struct, found⟩ := known index rfl
    rw [baseText, found, Option.map_some, Option.getD_some, String.toList_append]
    rfl

/-- Tables with the same names have the same structs under them. -/
theorem baseText_inj (listable : table.Listable)
    (names : table.symbols.map Symbol.name = table'.symbols.map Symbol.name)
    (known : table.Knows base) (known' : table'.Knows base')
    (same : table.baseText base = table'.baseText base') : base = base' := by
  have initial : base.initial = base'.initial := by
    have first := head?_baseText known
    rw [same, head?_baseText known'] at first
    exact (Option.some.inj first).symm
  cases base with
  | struct index =>
    cases base' with
    | int | double | char | void => exact absurd initial (by simp [Base.initial])
    | struct index' =>
      obtain ⟨-, struct, found⟩ := known index rfl
      obtain ⟨-, struct', found'⟩ := known' index' rfl
      simp only [baseText, found, found', Option.map_some, Option.getD_some] at same
      have name : struct.name = struct'.name := (String.append_right_inj "struct ").mp same
      have here : (table.symbols.map Symbol.name)[index]? = some struct.name := by
        rw [List.getElem?_map, (structAt?_iff.mp found).1, Option.map_some]
      have here' : (table.symbols.map Symbol.name)[index']? = some struct.name := by
        rw [names, List.getElem?_map, (structAt?_iff.mp found').1, Option.map_some, name]
      have inside := (List.getElem?_eq_some_iff.mp here).1
      rw [(List.getElem?_inj inside listable.distinct).mp (here.trans here'.symm)]
  | int | double | char | void =>
    cases base' <;> first | rfl | exact absurd initial (by simp [Base.initial])

theorem typeName_inj (listable : table.Listable) (listable' : table'.Listable)
    (names : table.symbols.map Symbol.name = table'.symbols.map Symbol.name)
    (known : table.Knows ty.base) (known' : table'.Knows ty'.base)
    (same : table.typeName ty = table'.typeName ty') : ty = ty' := by
  rw [typeName_eq, typeName_eq, ← String.toList_inj, String.toList_append, String.toList_append]
    at same
  obtain ⟨bases, extents⟩ := Extent.append_text_inj
    (listable.notMem_baseText known (by decide) (by decide))
    (listable'.notMem_baseText known' (by decide) (by decide)) same
  have base := listable.baseText_inj names known known' (String.toList_inj.mp bases)
  exact congrArg₂ Ty.mk base extents

end Listable

/-! ### Lines -/

section

variable {table table' : SymbolTable} {symbol symbol' part part' : Symbol}

/-- The line of a symbol without the line feed. -/
def headText (table : SymbolTable) (symbol : Symbol) : List Char :=
  symbol.cls.word.toList ++
    ' ' :: (if symbol.cls = .struct then symbol.name else table.typed symbol).toList

/-- The line of a part without the line feed. -/
def partText (table : SymbolTable) (part : Symbol) : List Char :=
  "    ".toList ++ ((if part.storage = .argument then "arg" else "member").toList ++
    ' ' :: (table.typed part).toList)

/-- The lines of a symbol, the first one by itself. -/
def block (table : SymbolTable) (symbol : Symbol) : List Char × List (List Char) :=
  (table.headText symbol, (symbol.members ++ symbol.args).map table.partText)

theorem toList_symbolLines (table : SymbolTable) (symbol : Symbol) :
    (table.symbolLines symbol).flatMap String.toList =
      ((table.block symbol).1 :: (table.block symbol).2).flatMap (· ++ ['\n']) := by
  have head : (table.headLine symbol).toList = table.headText symbol ++ ['\n'] := by
    simp [headLine, headText]
  have parts (part : Symbol) : (table.partLine part).toList = table.partText part ++ ['\n'] := by
    simp [partLine, partText]
  simp only [symbolLines, block, List.flatMap_cons, List.flatMap_map, head, parts]

theorem toList_listing (table : SymbolTable) : table.listing.toList =
    ((table.symbols.map table.block).flatMap fun block => block.1 :: block.2).flatMap
      (· ++ ['\n']) := by
  rw [listing, String.toList_join, List.flatMap_assoc, List.flatMap_assoc, List.flatMap_map]
  simp only [toList_symbolLines]

theorem toList_typed (table : SymbolTable) (symbol : Symbol) : (table.typed symbol).toList =
    symbol.name.toList ++ ':' :: ' ' :: (table.typeName symbol.ty).toList := by
  simp [typed]

/-- The colon ends the name. -/
theorem typed_inj (word : IsWord part.name) (word' : IsWord part'.name)
    (same : (table.typed part).toList = (table'.typed part').toList) :
    part.name = part'.name ∧ table.typeName part.ty = table'.typeName part'.ty := by
  rw [toList_typed, toList_typed] at same
  obtain ⟨names, types⟩ := append_cons_inj (word.notMem (by decide)) (word'.notMem (by decide)) same
  exact ⟨String.toList_inj.mp names, String.toList_inj.mp (List.cons.inj types).2⟩

theorem head?_headText (table : SymbolTable) (symbol : Symbol) :
    (table.headText symbol).head? = symbol.cls.word.toList.head? := by
  unfold headText
  cases symbol.cls <;> rfl

/-- The word of a class begins with a letter of its own. -/
theorem head?_word_inj {cls cls' : SymbolClass}
    (same : cls.word.toList.head? = cls'.word.toList.head?) : cls = cls' := by
  cases cls <;> cases cls' <;> first | rfl | exact absurd same (by decide)

theorem headText_inj (word : IsWord symbol.name) (word' : IsWord symbol'.name)
    (same : table.headText symbol = table'.headText symbol') :
    symbol.cls = symbol'.cls ∧ symbol.name = symbol'.name ∧
      (symbol.cls ≠ .struct → table.typeName symbol.ty = table'.typeName symbol'.ty) := by
  have cls : symbol.cls = symbol'.cls := by
    have first := congrArg List.head? same
    rw [head?_headText, head?_headText] at first
    exact head?_word_inj first
  rw [headText, headText, ← cls, List.append_cancel_left_eq] at same
  have what := (List.cons.inj same).2
  by_cases isStruct : symbol.cls = .struct
  · rw [if_pos isStruct, if_pos isStruct] at what
    exact ⟨cls, String.toList_inj.mp what, fun other => absurd isStruct other⟩
  · rw [if_neg isStruct, if_neg isStruct] at what
    obtain ⟨name, types⟩ := typed_inj word word' what
    exact ⟨cls, name, fun _ => types⟩

theorem partText_inj (word : IsWord part.name) (word' : IsWord part'.name)
    (same : table.partText part = table'.partText part') :
    part.name = part'.name ∧ table.typeName part.ty = table'.typeName part'.ty := by
  have role (storage : Storage) :
      ' ' ∉ (if storage = .argument then "arg" else "member").toList := by
    cases storage <;> decide
  obtain ⟨-, what⟩ := append_cons_inj (role _) (role _) (List.append_cancel_left same)
  exact typed_inj word word' what

end

/-! ### Tables -/

namespace Listable

variable {table table' : SymbolTable}

/-- The line does not begin with a blank. -/
def startsBlock (line : List Char) : Bool := line.head? != some ' '

theorem startsBlock_block (table : SymbolTable) : ∀ block ∈ table.symbols.map table.block,
    startsBlock block.1 = true ∧ ∀ line ∈ block.2, startsBlock line = false := by
  refine List.forall_mem_map.mpr fun symbol _ => ⟨?_, List.forall_mem_map.mpr fun part _ => rfl⟩
  rw [block, startsBlock, head?_headText]
  cases symbol.cls <;> decide

theorem noLineFeed_typeName {ty : Ty} (listable : table.Listable) (known : table.Knows ty.base) :
    '\n' ∉ (table.typeName ty).toList := by
  rw [typeName_eq, String.toList_append, List.mem_append, not_or]
  refine ⟨listable.notMem_baseText known (by decide) (by decide), ?_⟩
  cases ty.extent with
  | scalar | unsized => decide
  | sized size =>
    have digits : '\n' ∉ (toString size).toList := fun mem =>
      absurd (isDigit_of_mem_toString mem) (by decide)
    simpa [Extent.text] using digits

theorem knows_part (listable : table.Listable) {symbol part : Symbol}
    (mem : symbol ∈ table.symbols) (among : part ∈ symbol.members ++ symbol.args) :
    table.Knows part.ty.base := by
  rcases List.mem_append.mp among with isMember | isArg
  · exact knows_member listable.grounded mem isMember
  · exact knows_arg listable.grounded mem isArg

theorem noLineFeed_block (listable : table.Listable) {symbol : Symbol}
    (mem : symbol ∈ table.symbols) :
    ∀ line ∈ (table.block symbol).1 :: (table.block symbol).2, '\n' ∉ line := by
  have word := listable.words symbol mem
  have typed {part : Symbol} (named : IsWord part.name) (known : table.Knows part.ty.base) :
      '\n' ∉ (table.typed part).toList := by
    have name := named.notMem (c := '\n') (by decide)
    have type := listable.noLineFeed_typeName known
    simp [toList_typed, name, type]
  refine List.forall_mem_cons.mpr ⟨?_, List.forall_mem_map.mpr fun part among => ?_⟩
  · have what : '\n' ∉ (if symbol.cls = .struct then symbol.name else table.typed symbol).toList := by
      split
      · exact word.name.notMem (by decide)
      · exact typed word.name (knows_symbol listable.grounded mem)
    have label : '\n' ∉ symbol.cls.word.toList := by
      cases symbol.cls <;> decide
    simp [block, headText, what, label]
  · have known := listable.knows_part mem among
    have role : '\n' ∉ (if part.storage = .argument then "arg" else "member").toList := by
      cases part.storage <;> decide
    simp [partText, role, typed (word.parts part among) known]

/-- The lines of a listing fall into those of the symbols. -/
theorem map_block_eq (listable : table.Listable) (listable' : table'.Listable)
    (same : table.listing = table'.listing) :
    table.symbols.map table.block = table'.symbols.map table'.block := by
  have noLineFeed {table : SymbolTable} (listable : table.Listable) : ∀ line ∈
      ((table.symbols.map table.block).flatMap fun block => block.1 :: block.2), '\n' ∉ line := by
    intro line mem
    obtain ⟨block, among, inside⟩ := List.mem_flatMap.mp mem
    obtain ⟨symbol, mem, rfl⟩ := List.mem_map.mp among
    exact listable.noLineFeed_block mem line inside
  rw [← String.toList_inj, toList_listing, toList_listing] at same
  have lines := eq_of_flatMap_lines (noLineFeed listable) (noLineFeed listable') same
  exact eq_of_flatMap_blocks (startsBlock_block table) (startsBlock_block table') lines

end Listable

end SymbolTable

/-! ### What a listing does not read -/

namespace Symbol

theorem withoutLinesOfList_eq_map (symbols : List Symbol) :
    withoutLinesOfList symbols = symbols.map withoutLines := by
  induction symbols with
  | nil => rfl
  | cons symbol symbols ih => rw [withoutLinesOfList, ih, List.map_cons]

theorem withoutLines_eq (symbol : Symbol) : symbol.withoutLines =
    { symbol with
      line := 0, args := symbol.args.map withoutLines, members := symbol.members.map withoutLines } := by
  cases symbol
  rw [withoutLines, withoutLinesOfList_eq_map, withoutLinesOfList_eq_map]

end Symbol

namespace SymbolTable

section

variable {table table' : SymbolTable}

theorem typeName_of_withoutLines (same : table'.symbols = table.symbols.map Symbol.withoutLines)
    (ty : Ty) : table'.typeName ty = table.typeName ty := by
  rw [typeName_eq, typeName_eq]
  cases ty.base with
  | struct index =>
    simp only [baseText, structAt?, get?, same, List.getElem?_map, Option.filter_map, Option.map_map,
      Function.comp_def, Symbol.withoutLines_eq]
  | int | double | char | void => rfl

theorem listing_of_withoutLines (same : table'.symbols = table.symbols.map Symbol.withoutLines) :
    table'.listing = table.listing := by
  have typed (symbol : Symbol) : table'.typed symbol.withoutLines = table.typed symbol := by
    simp only [SymbolTable.typed, Symbol.withoutLines_eq, typeName_of_withoutLines same]
  have part (part : Symbol) : table'.partLine part.withoutLines = table.partLine part := by
    simp only [partLine, typed]
    simp only [Symbol.withoutLines_eq]
  have lines (symbol : Symbol) : table'.symbolLines symbol.withoutLines = table.symbolLines symbol := by
    have head : table'.headLine symbol.withoutLines = table.headLine symbol := by
      simp only [headLine, typed]
      simp only [Symbol.withoutLines_eq]
    rw [symbolLines, symbolLines, head, symbol.withoutLines_eq]
    simp only [← List.map_append, List.map_map, Function.comp_def, part]
  simp only [listing, same, List.flatMap_map, lines]

/-- Symbols that differ in their lines only are listed alike. -/
theorem listing_eq_of_symbols
    (same : Symbol.withoutLinesOfList table.symbols = Symbol.withoutLinesOfList table'.symbols) :
    table.listing = table'.listing := by
  have listed : table.withoutLines.listing = table.listing :=
    listing_of_withoutLines (Symbol.withoutLinesOfList_eq_map table.symbols)
  have listed' : table.withoutLines.listing = table'.listing :=
    listing_of_withoutLines (same.trans (Symbol.withoutLinesOfList_eq_map table'.symbols))
  rw [← listed, listed']

end

end SymbolTable

/-! ### What a listing shows -/

/-- What is listed of a symbol. The type of a struct is not, as it is its own. -/
structure Symbol.Shown where
  cls : SymbolClass
  name : String
  ty : Option Ty
  parts : List (String × Ty)

namespace Symbol

/-- The name and the type of a part. -/
def shownPart (part : Symbol) : String × Ty := (part.name, part.ty)

def shown (symbol : Symbol) : Shown where
  cls := symbol.cls
  name := symbol.name
  ty := if symbol.cls = .struct then none else some symbol.ty
  parts := (symbol.members ++ symbol.args).map shownPart

end Symbol

/-- A listing shows all of a symbol but for what follows from its place. -/
theorem SymbolTable.Listable.map_shown_eq {table table' : SymbolTable} (listable : table.Listable)
    (listable' : table'.Listable) (same : table.listing = table'.listing) :
    table.symbols.map Symbol.shown = table'.symbols.map Symbol.shown := by
  have pairs := forall₂_of_map_eq (listable.map_block_eq listable' same)
  have heads {symbol symbol' : Symbol} (mem : symbol ∈ table.symbols) (mem' : symbol' ∈ table'.symbols)
      (same : table.block symbol = table'.block symbol') := SymbolTable.headText_inj
    (listable.words symbol mem).name (listable'.words symbol' mem').name (Prod.ext_iff.mp same).1
  have names : table.symbols.map Symbol.name = table'.symbols.map Symbol.name :=
    map_eq_of_forall₂ (pairs.imp fun _ _ ⟨mem, mem', same⟩ => (heads mem mem' same).2.1)
  refine map_eq_of_forall₂ (pairs.imp fun symbol symbol' ⟨mem, mem', same⟩ => ?_)
  obtain ⟨cls, name, types⟩ := heads mem mem' same
  have ty : (if symbol.cls = .struct then none else some symbol.ty) =
      if symbol'.cls = .struct then none else some symbol'.ty := by
    rw [← cls]
    split
    · rfl
    · rename_i other
      rw [listable.typeName_inj listable' names (SymbolTable.knows_symbol listable.grounded mem)
        (SymbolTable.knows_symbol listable'.grounded mem') (types other)]
  have parts : (symbol.members ++ symbol.args).map Symbol.shownPart =
      (symbol'.members ++ symbol'.args).map Symbol.shownPart := by
    have lines := forall₂_of_map_eq (Prod.ext_iff.mp same).2
    refine map_eq_of_forall₂ (lines.imp fun part part' ⟨among, among', same⟩ => ?_)
    obtain ⟨name, types⟩ := SymbolTable.partText_inj ((listable.words symbol mem).parts part among)
      ((listable'.words symbol' mem').parts part' among') same
    exact Prod.ext name (listable.typeName_inj listable' names
      (listable.knows_part mem among) (listable'.knows_part mem' among') types)
  rw [Symbol.shown, Symbol.shown, ty, cls, name, parts]

/-! ### Reading back -/

namespace Symbol

namespace Shown

/-- The symbol of a part. -/
def part (storage : Storage) (depth : Nat) (shown : String × Ty) : Symbol :=
  { name := shown.1, cls := .var, ty := shown.2, storage, depth, line := 0 }

/-- The symbol with an index, without its line. The depth is that of a function in its place. -/
def symbol (index depth : Nat) (shown : Shown) : Symbol where
  name := shown.name
  cls := shown.cls
  ty := shown.ty.getD (.struct index)
  storage := .global
  depth := 0
  line := 0
  args := match shown.cls with
    | .function => shown.parts.map (part .argument depth)
    | .external => shown.parts.map (part .argument 1)
    | .var | .struct => []
  members := match shown.cls with
    | .struct => shown.parts.map (part .localVar 0)
    | .var | .function | .external => []

/-- The symbols of a table from an index on, in front of which there are some functions. -/
def symbolsFrom (index functions : Nat) : List Shown → List Symbol
  | [] => []
  | shown :: rest => shown.symbol index (functions + 1) ::
    symbolsFrom (index + 1) (functions + if shown.cls = .function then 1 else 0) rest

end Shown

/-- But for their lines, the symbols follow from what is shown of them. -/
def AreShown (index functions : Nat) (symbols : List Symbol) : Prop :=
  withoutLinesOfList symbols = Shown.symbolsFrom index functions (symbols.map shown)

theorem AreShown.append {index functions : Nat} {symbols symbols' : List Symbol}
    (first : AreShown index functions symbols)
    (next : AreShown (index + symbols.length)
      (functions + symbols.countP fun symbol => symbol.cls = .function) symbols') :
    AreShown index functions (symbols ++ symbols') := by
  have split (symbols : List Symbol) (index functions : Nat) (rest : List Shown) :
      Shown.symbolsFrom index functions (symbols.map shown ++ rest) =
        Shown.symbolsFrom index functions (symbols.map shown) ++
          Shown.symbolsFrom (index + symbols.length)
            (functions + symbols.countP fun symbol => symbol.cls = .function) rest := by
    induction symbols generalizing index functions with
    | nil => rfl
    | cons symbol symbols ih =>
      have counted : (if symbol.shown.cls = .function then 1 else 0) =
          if decide (symbol.cls = .function) = true then 1 else 0 := by simp [shown]
      rw [List.map_cons, List.cons_append, Shown.symbolsFrom, ih, Shown.symbolsFrom, List.cons_append,
        List.length_cons, List.countP_cons, counted, Nat.add_right_comm, Nat.add_assoc functions,
        Nat.add_comm (List.countP _ _), ← Nat.add_assoc index]
  rw [AreShown, withoutLinesOfList_append, List.map_append, split, first, next]

theorem withoutLinesOfList_parts {storage : Storage} {depth : Nat} {parts : List Symbol}
    (h : ∀ part ∈ parts, part.withoutLines = Shown.part storage depth part.shownPart) :
    withoutLinesOfList parts = (parts.map shownPart).map (Shown.part storage depth) := by
  induction parts with
  | nil => rfl
  | cons part parts ih =>
    obtain ⟨first, others⟩ := List.forall_mem_cons.mp h
    rw [withoutLinesOfList, first, ih others, List.map_cons, List.map_cons]

end Symbol

theorem Variables.areShown {base : Base} {table : SymbolTable} {declarators : List Declarator}
    {symbols : List Symbol} (h : Variables base table declarators symbols) (index functions : Nat) :
    Symbol.AreShown index functions symbols := by
  induction h generalizing index functions with
  | nil => rfl
  | @cons _ _ name _ _ ty _ symbols _ _ _ ih =>
    have first : Symbol.AreShown index functions [topLevelSymbol name .var ty] := rfl
    exact first.append (ih _ _)

theorem Decl.Declares.areShown {table : SymbolTable} {functions : Nat} {decl : Decl}
    {symbols : List Symbol} (h : decl.Declares table functions symbols) :
    Symbol.AreShown table.size functions symbols := by
  cases h with
  | @struct _ _ _ members _ _ symbols areMembers =>
    have parts : Symbol.withoutLinesOfList symbols =
        (symbols.map Symbol.shownPart).map (Symbol.Shown.part .localVar 0) := by
      refine Symbol.withoutLinesOfList_parts fun part mem => ?_
      obtain ⟨⟨base, declarator⟩, -, isMember⟩ := exists_of_mem_right areMembers mem
      cases isMember
      rfl
    simp [Symbol.AreShown, Symbol.withoutLinesOfList, Symbol.withoutLines, Symbol.Shown.symbolsFrom,
      Symbol.Shown.symbol, Symbol.shown, topLevelSymbol, Ty.struct, parts]
  | @function _ _ _ _ _ _ _ args _ areArgs =>
    have parts : Symbol.withoutLinesOfList args =
        (args.map Symbol.shownPart).map (Symbol.Shown.part .argument (functions + 1)) := by
      refine Symbol.withoutLinesOfList_parts fun part mem => ?_
      obtain ⟨param, -, isArg⟩ := exists_of_mem_right areArgs mem
      cases isArg
      rfl
    simp [Symbol.AreShown, Symbol.withoutLinesOfList, Symbol.withoutLines, Symbol.Shown.symbolsFrom,
      Symbol.Shown.symbol, Symbol.shown, topLevelSymbol, parts]
  | vars _ variables' => exact variables'.areShown _ _

theorem Declarations.areShown {table : SymbolTable} {functions : Nat} {decls : List Decl}
    {symbols : List Symbol} (h : Declarations table functions decls symbols) :
    Symbol.AreShown table.size functions symbols := by
  induction h with
  | nil => rfl
  | cons declares same _ ih =>
    refine declares.areShown.append ?_
    have count := declares.functions_eq
    unfold Insertion.functions at count
    rw [count]
    simpa [SymbolTable.size, same] using ih

/-! ### Names of declarations -/

theorem mem_lexemesOf {lexeme : Lexeme} {ps : Parts} (mem : Slot.found lexeme ∈ ps) :
    lexeme ∈ lexemesOf ps := by
  obtain ⟨before, behind, rfl⟩ := List.append_of_mem mem
  simp

/-- The names among the parts are words. -/
def HasWords (ps : Parts) : Prop :=
  ∀ name place, Slot.found ⟨.identifier name, place⟩ ∈ ps → IsWord name

theorem HasWords.mono {ps qs : Parts} (words : HasWords ps) (sub : qs ⊆ ps) : HasWords qs :=
  fun name place mem => words name place (sub mem)

theorem HasWords.name {ps : Parts} (words : HasWords ps) {name : Name} (sub : namePart name ⊆ ps) :
    IsWord name.value :=
  words name.value name.place (sub List.mem_cons_self)

theorem VarDecl.namePart_subset {decl : VarDecl} {declarator : Declarator} {name : Name}
    (among : declarator ∈ decl.declarators.toList) (named : declarator.name = .found name) :
    namePart name ⊆ decl.parts := by
  have inDeclarator : namePart name ⊆ declarator.parts := by simp [Declarator.parts, named]
  refine List.Subset.trans inDeclarator (List.Subset.trans (Separated.parts_subset among) ?_)
  simp [VarDecl.parts]

theorem Decl.Declares.hasWords {table : SymbolTable} {functions : Nat} {decl : Decl}
    {symbols : List Symbol} (h : decl.Declares table functions symbols)
    (words : HasWords decl.parts) : ∀ symbol ∈ symbols, symbol.HasWords := by
  cases h with
  | @struct _ name _ members _ _ symbols areMembers =>
    refine List.forall_mem_singleton.mpr ⟨words.name (by simp [Decl.parts]), fun part mem => ?_⟩
    rw [topLevelSymbol, List.append_nil] at mem
    obtain ⟨⟨base, declarator⟩, among, isMember⟩ := exists_of_mem_right areMembers mem
    obtain ⟨decl, inside, among⟩ := List.mem_flatMap.mp among
    obtain ⟨declarator', among, ⟨⟩⟩ := List.mem_map.mp among
    cases isMember with
    | @intro name =>
      have inMember := VarDecl.namePart_subset among rfl
      refine words.name (List.Subset.trans inMember fun part mem => ?_)
      refine List.mem_append_left _ (List.mem_append_left _ (List.mem_append_right _ ?_))
      exact List.mem_flatMap_of_mem inside mem
  | @function _ name _ params _ _ _ args _ areArgs =>
    refine List.forall_mem_singleton.mpr ⟨words.name (by simp [Decl.parts]), fun part mem => ?_⟩
    rw [topLevelSymbol, List.nil_append] at mem
    obtain ⟨param, among, isArg⟩ := exists_of_mem_right areArgs mem
    cases isArg with
    | @intro base name array =>
      cases params with
      | none => cases among
      | some items =>
        have inParam : namePart name ⊆ (Slot.found (⟨base, .found name, array⟩ : Param)).parts
            Param.parts := by simp [Param.parts]
        have inParams := List.Subset.trans inParam (Separated.parts_subset among)
        refine words.name (List.Subset.trans inParams fun part mem => ?_)
        exact List.mem_append_left _ (List.mem_append_left _ (List.mem_append_right _ mem))
  | @vars _ _ _ _ _ symbols _ variables' =>
    intro symbol mem
    obtain ⟨declarator, among, name, ty, named, rfl⟩ := variables'.exists_of_mem symbol mem
    exact ⟨words.name (VarDecl.namePart_subset among named), List.forall_mem_nil _⟩

theorem Declarations.hasWords {table : SymbolTable} {functions : Nat} {decls : List Decl}
    {symbols : List Symbol} (h : Declarations table functions decls symbols)
    (words : HasWords (decls.flatMap Decl.parts)) : ∀ symbol ∈ symbols, symbol.HasWords := by
  induction h with
  | nil => exact List.forall_mem_nil _
  | cons declares _ _ ih =>
    rw [List.flatMap_cons] at words
    refine List.forall_mem_append.mpr ⟨declares.hasWords ?_, ih ?_⟩
    · exact words.mono (List.subset_append_left _ _)
    · exact words.mono (List.subset_append_right _ _)

/-! ### Programs -/

namespace Program

variable {source : String} {tokens : List Token} {program : Program} {decls : List Decl}

theorem Written.hasWords (written : Written tokens decls) (scanned : tokenize source = .ok tokens) :
    HasWords (decls.flatMap Decl.parts) := by
  intro name place mem
  have inFront : (⟨.identifier name, place⟩ : Lexeme) ∈ front tokens :=
    written.lexemes ▸ mem_lexemesOf mem
  obtain ⟨token, found, kind, -⟩ :=
    Lexeme.getElem?_of_mem_number ((List.takeWhile_sublist _).subset inFront)
  have isScanned := Scanner.isScanned_of_tokens scanned token (List.mem_of_getElem? found)
  rw [← kind] at isScanned
  rcases isScanned with isEnd | isScanned
  · cases isEnd
  · exact isScanned.isWord

theorem hasWords_externals : ∀ symbol ∈ SymbolTable.externals, symbol.HasWords := by
  have words : SymbolTable.externals.all fun symbol => symbol.name.toList.all Pattern.isWordChar &&
      (symbol.members ++ symbol.args).all fun part => part.name.toList.all Pattern.isWordChar := by
    decide
  simp only [List.all_eq_true, Bool.and_eq_true] at words
  exact fun symbol mem => ⟨(words symbol mem).1, (words symbol mem).2⟩

theorem areShown_externals : Symbol.AreShown 0 0 SymbolTable.externals := rfl

/-- The table of an accepted program can be listed, and its symbols follow from the listing. -/
theorem listable_of_accepted (scanned : tokenize source = .ok tokens)
    (accepted : (ofTokens tokens).result = .ok program) :
    program.table.Listable ∧ Symbol.AreShown 0 0 program.table.symbols := by
  obtain ⟨decls, written⟩ := exists_written accepted
  have given := ((written.accepted_iff (ends_of_accepted accepted)).mp accepted).1
  obtain ⟨declared, holds⟩ := holds_of_gives program written.formed given
  obtain ⟨past, s, reachable, -, final⟩ := ((Machine.tableOfDecls_iff decls).1 _).mp given
  refine ⟨⟨?_, final ▸ reachable.grounded.table, holds.distinct⟩, ?_⟩
  · rw [holds.table]
    exact List.forall_mem_append.mpr
      ⟨hasWords_externals, holds.declarations.hasWords (written.hasWords scanned)⟩
  · rw [holds.table]
    exact areShown_externals.append holds.declarations.areShown

/-- Where two sources are accepted and their symbol tables have the same listing, the tables have the
same symbols, but for the lines of these. -/
theorem symbols_of_listing (source source' : String) (tokens tokens' : List Token)
    (program program' : Program) (scanned : tokenize source = .ok tokens)
    (scanned' : tokenize source' = .ok tokens') (accepted : (ofTokens tokens).result = .ok program)
    (accepted' : (ofTokens tokens').result = .ok program')
    (same : program.table.listing = program'.table.listing) :
    Symbol.withoutLinesOfList program.table.symbols =
      Symbol.withoutLinesOfList program'.table.symbols := by
  obtain ⟨listable, shown⟩ := listable_of_accepted scanned accepted
  obtain ⟨listable', shown'⟩ := listable_of_accepted scanned' accepted'
  rw [shown, shown', listable.map_shown_eq listable' same]

/-- A struct and a function with a parameter of it, and the same on two lines with a statement in the
body: the listings are the same, and but for the lines so are the tables. -/
theorem symbols_of_listing_body :
    let tokens : List Token :=
      [⟨.keyword .structKw, ⟨0, 6⟩, 1⟩, ⟨.identifier "P", ⟨7, 8⟩, 1⟩,
       ⟨.delimiter .leftBrace, ⟨8, 9⟩, 1⟩, ⟨.delimiter .rightBrace, ⟨9, 10⟩, 1⟩,
       ⟨.delimiter .semicolon, ⟨10, 11⟩, 1⟩, ⟨.keyword .voidKw, ⟨11, 15⟩, 1⟩,
       ⟨.identifier "f", ⟨16, 17⟩, 1⟩, ⟨.delimiter .leftParen, ⟨17, 18⟩, 1⟩,
       ⟨.keyword .structKw, ⟨18, 24⟩, 1⟩, ⟨.identifier "P", ⟨25, 26⟩, 1⟩,
       ⟨.identifier "p", ⟨27, 28⟩, 1⟩, ⟨.delimiter .rightParen, ⟨28, 29⟩, 1⟩,
       ⟨.delimiter .leftBrace, ⟨29, 30⟩, 1⟩, ⟨.delimiter .rightBrace, ⟨30, 31⟩, 1⟩,
       ⟨.endOfInput, ⟨31, 31⟩, 1⟩]
    let tokens' : List Token :=
      [⟨.keyword .structKw, ⟨0, 6⟩, 1⟩, ⟨.identifier "P", ⟨7, 8⟩, 1⟩,
       ⟨.delimiter .leftBrace, ⟨8, 9⟩, 1⟩, ⟨.delimiter .rightBrace, ⟨9, 10⟩, 1⟩,
       ⟨.delimiter .semicolon, ⟨10, 11⟩, 1⟩, ⟨.keyword .voidKw, ⟨12, 16⟩, 2⟩,
       ⟨.identifier "f", ⟨17, 18⟩, 2⟩, ⟨.delimiter .leftParen, ⟨18, 19⟩, 2⟩,
       ⟨.keyword .structKw, ⟨19, 25⟩, 2⟩, ⟨.identifier "P", ⟨26, 27⟩, 2⟩,
       ⟨.identifier "p", ⟨28, 29⟩, 2⟩, ⟨.delimiter .rightParen, ⟨29, 30⟩, 2⟩,
       ⟨.delimiter .leftBrace, ⟨30, 31⟩, 2⟩, ⟨.delimiter .semicolon, ⟨31, 32⟩, 2⟩,
       ⟨.delimiter .rightBrace, ⟨32, 33⟩, 2⟩, ⟨.endOfInput, ⟨33, 33⟩, 2⟩]
    ∃ program program', tokenize "struct P{};void f(struct P p){}" = .ok tokens ∧
      tokenize "struct P{};\nvoid f(struct P p){;}" = .ok tokens' ∧
      (ofTokens tokens).result = .ok program ∧ (ofTokens tokens').result = .ok program' ∧
      program.table.listing = program'.table.listing ∧
      Symbol.withoutLinesOfList program.table.symbols =
        Symbol.withoutLinesOfList program'.table.symbols := by
  intro tokens tokens'
  have scanned : tokenize "struct P{};void f(struct P p){}" = .ok tokens := rfl
  have scanned' : tokenize "struct P{};\nvoid f(struct P p){;}" = .ok tokens' := rfl
  refine ⟨_, _, scanned, scanned', rfl, rfl, SymbolTable.listing_eq_of_symbols rfl, ?_⟩
  exact symbols_of_listing _ _ _ _ _ _ scanned scanned' rfl rfl (SymbolTable.listing_eq_of_symbols rfl)

end Program

end PlainC
