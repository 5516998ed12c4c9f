import PlainC.Proofs.Anchoring.Source
import PlainC.Proofs.Declaring.Names
import PlainC.Proofs.Declaring.Redefinition
import PlainC.Proofs.Program.Renaming

set_option autoImplicit false

/-!
Only the kinds of tokens decide about a program. Other tokens of the same kinds are accepted just if
these are, and then make the same table but for its lines; and if they are refused, then for the same
reason, at the token that stands at the same position.
-/

namespace PlainC

open Checked

/-! ### Other places -/

/-- The place of the token at the same position among other tokens. What has no line stays where it
is. -/
def Place.among (tokens : List Token) (place : Place) : Place :=
  if place.line = 0 then place
  else match tokens[place.index]? with
    | some token => ⟨place.index, token.span, token.line⟩
    | none => place

theorem Place.line_among {tokens : List Token} (numbered : ∀ token ∈ tokens, 1 ≤ token.line)
    (place : Place) : place.line = 0 ↔ (place.among tokens).line = 0 := by
  unfold among
  split
  · exact Iff.rfl
  · split
    · rename_i token found
      have := numbered token (List.mem_of_getElem? found)
      simp only
      omega
    · exact Iff.rfl

theorem Place.index_among (tokens : List Token) (place : Place) :
    (place.among tokens).index = place.index := by
  unfold among
  repeat' split
  all_goals rfl

/-- The same names at the places of other tokens. Only what has no line stands for what has none. -/
def Relabeling.toPlaces (tokens : List Token) (numbered : ∀ token ∈ tokens, 1 ≤ token.line) :
    Relabeling where
  name := id
  place := Place.among tokens
  lines line line' := line = 0 ↔ line' = 0
  injective := fun same => same
  external := SymbolTable.name_external_id
  lines_place := Place.line_among numbered
  lines_zero := Iff.rfl

theorem Relabeling.toPlaces_keepsNames {tokens : List Token}
    (numbered : ∀ token ∈ tokens, 1 ≤ token.line) :
    (Relabeling.toPlaces tokens numbered).KeepsNames := fun _ => rfl

theorem Lexeme.number_congr {tokens tokens' : List Token}
    (kinds : tokens'.map Token.kind = tokens.map Token.kind)
    (numbered : ∀ token ∈ tokens, 1 ≤ token.line)
    (numbered' : ∀ token ∈ tokens', 1 ≤ token.line) :
    number 0 tokens' = (number 0 tokens).map (relabel (.toPlaces tokens' numbered')) := by
  apply List.ext_getElem?
  intro i
  have kind : (tokens'[i]?).map Token.kind = (tokens[i]?).map Token.kind := by
    rw [← List.getElem?_map, kinds, List.getElem?_map]
  rw [List.getElem?_map, getElem?_number, getElem?_number]
  cases found : tokens[i]? with
  | none =>
    rw [found] at kind
    rw [Option.map_eq_none_iff.mp kind]
    rfl
  | some token =>
    rw [found] at kind
    obtain ⟨token', found', same⟩ := Option.map_eq_some_iff.mp kind
    have numberedHere := numbered token (List.mem_of_getElem? found)
    have line : token.line ≠ 0 := by omega
    have keeps := Kind.relabel_of_keepsNames (Relabeling.toPlaces_keepsNames numbered') token.kind
    have place : (Relabeling.toPlaces tokens' numbered').place ⟨i, token.span, token.line⟩ =
        ⟨i, token'.span, token'.line⟩ := by
      simp [Relabeling.toPlaces, Place.among, line, found']
    simp only [found', Option.map_some, relabel, keeps, same, Nat.zero_add, place]

/-! ### Tables without their lines -/

mutual

/-- The symbol with no line in it. -/
def Symbol.withoutLines : Symbol → Symbol
  | ⟨name, cls, ty, storage, depth, _, args, members⟩ =>
    ⟨name, cls, ty, storage, depth, 0, withoutLinesOfList args, withoutLinesOfList members⟩

def Symbol.withoutLinesOfList : List Symbol → List Symbol
  | [] => []
  | symbol :: rest => symbol.withoutLines :: withoutLinesOfList rest

end

/-- The table with no line in it. -/
def SymbolTable.withoutLines (table : SymbolTable) : SymbolTable :=
  { table with symbols := Symbol.withoutLinesOfList table.symbols }

section

variable {r : Relabeling} {symbols symbols' : List Symbol}

theorem Symbol.withoutLines_of_partAlike (keeps : r.KeepsNames)
    (alike : List.Forall₂ (PartAlike r) symbols symbols') :
    withoutLinesOfList symbols' = withoutLinesOfList symbols := by
  induction alike with
  | nil => rfl
  | cons head _ ih =>
    cases head with
    | intro lines => simp only [withoutLinesOfList, withoutLines, keeps _, ih]

theorem Symbol.withoutLines_of_alike (keeps : r.KeepsNames)
    (alike : List.Forall₂ (Alike r) symbols symbols') :
    withoutLinesOfList symbols' = withoutLinesOfList symbols := by
  induction alike with
  | nil => rfl
  | cons head _ ih =>
    cases head with
    | intro lines args members =>
      simp only [withoutLinesOfList, withoutLines, keeps _, ih, withoutLines_of_partAlike keeps args,
        withoutLines_of_partAlike keeps members]

theorem Symbol.withoutLinesOfList_append (first second : List Symbol) :
    withoutLinesOfList (first ++ second) =
      withoutLinesOfList first ++ withoutLinesOfList second := by
  induction first with
  | nil => rfl
  | cons symbol first ih => simp [withoutLinesOfList, ih]

end

/-! ### Complaints that differ in a line -/

/-- The complaints are the same, or both are about a name that is taken, by declarations on two
lines. -/
inductive Complaint.SameButLine : Complaint → Complaint → Prop
  | same (complaint : Complaint) : SameButLine complaint complaint
  | redefinition (name : String) {line line' : Nat} : 0 < line → 0 < line' → SameButLine
      (.semantic ("symbol redefinition: " ++ name ++
        (" (previously declared on line " ++ toString line ++ ")")))
      (.semantic ("symbol redefinition: " ++ name ++
        (" (previously declared on line " ++ toString line' ++ ")")))

theorem Complaint.sameButLine_redefinition (name : String) {line line' : Nat}
    (lines : line = 0 ↔ line' = 0) :
    SameButLine (.semantic (Violation.redefinition name line).message)
      (.semantic (Violation.redefinition name line').message) := by
  by_cases unknown : line = 0
  · rw [unknown, lines.mp unknown]
    exact .same _
  · have known : 0 < line := Nat.pos_of_ne_zero unknown
    have known' : 0 < line' := Nat.pos_of_ne_zero (mt lines.mpr unknown)
    rw [Violation.message_redefinition name known, Violation.message_redefinition name known']
    exact .redefinition name known known'

theorem Cause.Alike.complaint_sameButLine {tokens : List Token}
    {numbered : ∀ token ∈ tokens, 1 ≤ token.line} {cause cause' : Cause}
    (alike : cause.Alike (.toPlaces tokens numbered) cause') :
    cause.complaint.SameButLine cause'.complaint := by
  have keeps := Relabeling.toPlaces_keepsNames numbered
  cases alike with
  | literal | noTokens => exact .same _
  | unexpected wanted found =>
    rw [Kind.relabel_of_keepsNames keeps]
    exact .same _
  | violation alike =>
    cases alike keeps with
    | same => exact .same _
    | redefinition name lines => exact Complaint.sameButLine_redefinition name lines

namespace Program

/-- Tokens that do not end with the end of input are refused at the last of them. -/
theorem refused_of_not_ends {tokens : List Token} (nonempty : tokens ≠ []) (unended : ¬Ends tokens) :
    ∃ final ∈ Lexeme.number 0 tokens, (ofTokens tokens).result =
      .error ⟨.unexpected .endOfInput final.value, final.place⟩ := by
  have numbers : Lexeme.number 0 tokens ≠ [] := by
    rwa [← List.length_pos_iff, Lexeme.length_number, List.length_pos_iff]
  have found := List.getLast?_eq_some_getLast numbers
  refine ⟨_, List.getLast_mem numbers, ?_⟩
  have other : ((Lexeme.number 0 tokens).getLast numbers).value ≠ .endOfInput := by
    intro isEnd
    exact unended (ends_iff.mpr ⟨_, found, isEnd⟩)
  simp only [ofTokens, found, ne_eq, other, not_false_eq_true, if_true]
  rfl

/-- The fault of a program stands at the place of one of its lexemes. -/
theorem exists_lexeme_of_fault {tokens : List Token} {fault : Fault} (nonempty : tokens ≠ [])
    (refused : (ofTokens tokens).result = .error fault) :
    ∃ lexeme ∈ Lexeme.number 0 tokens, fault.place = lexeme.place := by
  by_cases ends : Ends tokens
  · obtain ⟨last, last_mem, -, h⟩ := ofTokens_result_mem ends
    rw [h, result_map_eq_error, tableOfDecls_result, result_map_eq_error] at refused
    obtain ⟨lexeme, read, place, -⟩ := Decl.exists_lexeme_of_fault refused
    refine ⟨lexeme, ?_, place⟩
    rcases read with inFront | isLast
    · exact (List.takeWhile_sublist _).subset inFront
    · exact isLast ▸ last_mem
  · obtain ⟨final, mem, h⟩ := refused_of_not_ends nonempty ends
    obtain rfl := Except.error.inj (h.symm.trans refused)
    exact ⟨final, mem, rfl⟩

/-- Programs that are alike have met the same names, if no name is changed. -/
theorem names_eq_of_accepted {r : Relabeling} (keeps : r.KeepsNames) {tokens tokens' : List Token}
    (same : Lexeme.number 0 tokens' = (Lexeme.number 0 tokens).map (Lexeme.relabel r))
    {program program' : Program} (accepted : (ofTokens tokens).result = .ok program)
    (accepted' : (ofTokens tokens').result = .ok program') :
    program'.table.names = program.table.names := by
  obtain ⟨decls, written⟩ := exists_written accepted
  have lexemes : (lexemesOf (decls.flatMap Decl.parts)).map (Lexeme.relabel r) = front tokens' := by
    rw [written.lexemes, front, front, same, Lexeme.takeWhile_relabel]
  have written' := written_relabel r written.formed written.gapless lexemes
  exact names_eq_of_relabel keeps ((written.accepted_iff (ends_of_accepted accepted)).mp accepted).1
    ((written'.accepted_iff (ends_of_accepted accepted')).mp accepted').1

/-- Other tokens of the same kinds are accepted just if these are, and make the same table but for
its lines. If they are refused, then with the same complaint, but for the line of an earlier
declaration in it, at the token that stands at the same position. -/
theorem ofTokens_congr_kinds (tokens tokens' : List Token) (nonempty : tokens ≠ [])
    (kinds : tokens'.map Token.kind = tokens.map Token.kind)
    (numbered : ∀ token ∈ tokens, 1 ≤ token.line)
    (numbered' : ∀ token ∈ tokens', 1 ≤ token.line) :
    (∃ program program', (ofTokens tokens).result = .ok program ∧
      (ofTokens tokens').result = .ok program' ∧ program'.position = program.position ∧
      program'.table.withoutLines = program.table.withoutLines) ∨
    ∃ (fault fault' : Fault) (index : Nat) (token token' : Token), (ofTokens tokens).result = .error fault ∧
      (ofTokens tokens').result = .error fault' ∧
      tokens[index]? = some token ∧ tokens'[index]? = some token' ∧
      fault.diagnostic.span = token.span ∧ fault.diagnostic.line = token.line ∧
      fault'.diagnostic.span = token'.span ∧ fault'.diagnostic.line = token'.line ∧
      fault.diagnostic.complaint.SameButLine fault'.diagnostic.complaint := by
  have keeps := Relabeling.toPlaces_keepsNames numbered'
  have same := Lexeme.number_congr kinds numbered numbered'
  rcases alike_ofTokens nonempty same with ⟨program, program', accepted, accepted', related⟩ |
    ⟨fault, fault', refused, refused', related⟩
  · have names := names_eq_of_accepted keeps same accepted accepted'
    obtain ⟨own, own', front, front', alike⟩ := related.table
    have symbols : Symbol.withoutLinesOfList program'.table.symbols =
        Symbol.withoutLinesOfList program.table.symbols := by
      rw [front, front', Symbol.withoutLinesOfList_append, Symbol.withoutLinesOfList_append,
        Symbol.withoutLines_of_alike keeps alike]
    refine .inl ⟨program, program', accepted, accepted', related.position, ?_⟩
    rw [SymbolTable.withoutLines, SymbolTable.withoutLines, symbols, names]
  · obtain ⟨lexeme, mem, place⟩ := exists_lexeme_of_fault nonempty refused
    have nonempty' : tokens' ≠ [] := by
      rintro rfl
      exact nonempty (List.map_eq_nil_iff.mp kinds.symm)
    obtain ⟨lexeme', mem', place'⟩ := exists_lexeme_of_fault nonempty' refused'
    obtain ⟨token, found, -, span, line⟩ := Lexeme.getElem?_of_mem_number mem
    obtain ⟨token', found', -, span', line'⟩ := Lexeme.getElem?_of_mem_number mem'
    rw [← place] at found span line
    rw [← place', related.place] at found'
    rw [← place'] at span' line'
    have index : ((Relabeling.toPlaces tokens' numbered').place fault.place).index =
        fault.place.index := Place.index_among tokens' fault.place
    rw [index] at found'
    exact .inr ⟨fault, fault', fault.place.index, token, token', refused, refused', found, found',
      span, line, span', line', related.cause.complaint_sameButLine⟩

/-- `int x; int x;` on one line, and with the second half on another one: the complaints differ in
nothing but the line of the first `x`. -/
theorem ofTokens_congr_kinds_redefinition :
    let kinds : List Kind :=
      [.keyword .intKw, .identifier "x", .delimiter .semicolon,
        .keyword .intKw, .identifier "x", .delimiter .semicolon, .endOfInput]
    let tokens : List Token := kinds.map fun kind => ⟨kind, ⟨0, 1⟩, 1⟩
    let tokens' : List Token := kinds.map fun kind => ⟨kind, ⟨2, 3⟩, 2⟩
    ∃ fault fault' : Fault, (ofTokens tokens).result = .error fault ∧
      (ofTokens tokens').result = .error fault' ∧
      fault.diagnostic.complaint ≠ fault'.diagnostic.complaint ∧
      fault.diagnostic.complaint.SameButLine fault'.diagnostic.complaint := by
  intro kinds tokens tokens'
  have refused : (ofTokens tokens).result =
    .error ⟨.violation (.redefinition "x" 1), ⟨4, ⟨0, 1⟩, 1⟩⟩ := rfl
  have refused' : (ofTokens tokens').result =
    .error ⟨.violation (.redefinition "x" 2), ⟨4, ⟨2, 3⟩, 2⟩⟩ := rfl
  rcases ofTokens_congr_kinds tokens tokens' (by simp [tokens, kinds]) rfl (by decide) (by decide) with
    ⟨program, _, accepted, -⟩ |
    ⟨fault, fault', index, token, token', h, h', -, -, -, -, -, -, complaints⟩
  · cases refused.symm.trans accepted
  · obtain rfl := Except.error.inj (refused.symm.trans h)
    obtain rfl := Except.error.inj (refused'.symm.trans h')
    exact ⟨_, _, refused, refused', by decide +kernel, complaints⟩

end Program

end PlainC
