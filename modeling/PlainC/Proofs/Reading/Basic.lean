import PlainC.Proofs.Syntax.Formed

set_option autoImplicit false

/-!
What the parsers of single lexemes and the ways to repeat parsers make of lexemes. Each primitive
has one lemma with its two outcomes: the lexeme is taken, or everything stays where it is.
-/

namespace PlainC

namespace Parse

variable {α : Type}

/-- Whatever the lexemes are, the result is good and made of just the lexemes that are taken. -/
def Reads (parser : Parse α) (view : α → Parts) (good : α → Prop) : Prop :=
  ∀ last ts, ∃ a rest, parser last ts = (a, rest) ∧ Spans last (view a) ts rest ∧ good a

@[simp] theorem map_apply {β : Type} (f : α → β) (parser : Parse α) (last : Lexeme)
    (ts : List Lexeme) : (f <$> parser) last ts = (f (parser last ts).1, (parser last ts).2) := rfl

@[simp] theorem peek_apply (last : Lexeme) (ts : List Lexeme) :
    peek last ts = (ts.headD last, ts) := rfl

@[simp] theorem missing_apply (last : Lexeme) (ts : List Lexeme) :
    (missing : Parse (Slot α)) last ts = (.missing (ts.headD last), ts) := rfl

theorem sees_apply (kind : Kind) (last : Lexeme) (ts : List Lexeme) :
    sees kind last ts = (decide ((ts.headD last).value = kind), ts) := rfl

theorem atEnd_apply (last : Lexeme) (ts : List Lexeme) : atEnd last ts = (ts.isEmpty, ts) := rfl

/-! ### Single lexemes -/

theorem accept?_cases (read : Kind → Option α) (last : Lexeme) (ts : List Lexeme) :
    (∃ t behind a, ts = t :: behind ∧ read t.value = some a ∧
      accept? read last ts = (some ⟨a, t.place⟩, behind)) ∨
    ((∀ t ∈ ts.head?, read t.value = none) ∧ accept? read last ts = (none, ts)) := by
  cases ts with
  | nil => exact .inr ⟨by simp, rfl⟩
  | cons t behind =>
    cases found : read t.value with
    | none => exact .inr ⟨by simp [found], by simp [accept?, found]⟩
    | some a => exact .inl ⟨t, behind, a, rfl, found, by simp [accept?, found]⟩

theorem token?_cases (kind : Kind) (last : Lexeme) (ts : List Lexeme) :
    (∃ place behind, ts = ⟨kind, place⟩ :: behind ∧ token? kind last ts = (some place, behind)) ∨
    ((∀ t ∈ ts.head?, t.value ≠ kind) ∧ token? kind last ts = (none, ts)) := by
  obtain ⟨t, behind, a, rfl, found, h⟩ | ⟨other, h⟩ :=
    accept?_cases (fun k => if k = kind then some () else none) last ts
  · have same : t.value = kind := by
      by_cases same : t.value = kind
      · exact same
      · simp [same] at found
    exact .inl ⟨t.place, behind, by simp [← same], by simp [token?, h]⟩
  · exact .inr ⟨by simpa using other, by simp [token?, h]⟩

theorem token?_of_head {kind : Kind} {last : Lexeme} {place : Place} {ts : List Lexeme} :
    token? kind last (⟨kind, place⟩ :: ts) = (some place, ts) := by
  simp [token?, accept?]

theorem keyword?_of_head {word : Keyword} {last : Lexeme} {place : Place} {ts : List Lexeme} :
    keyword? word last (⟨.keyword word, place⟩ :: ts) = (some place, ts) := token?_of_head

theorem token?_of_ne (kind : Kind) (last : Lexeme) (ts : List Lexeme)
    (h : ∀ t ∈ ts.head?, t.value ≠ kind) : token? kind last ts = (none, ts) := by
  rcases token?_cases kind last ts with ⟨place, behind, rfl, -⟩ | ⟨-, none⟩
  · simp at h
  · exact none

theorem token_reads (kind : Kind) : Reads (token kind) (Slot.parts kind.part) fun _ => True := by
  intro last ts
  rcases token?_cases kind last ts with ⟨place, behind, rfl, h⟩ | ⟨-, h⟩
  · exact ⟨.found place, behind, by simp [token, h], by simp⟩
  · exact ⟨.missing (ts.headD last), ts, by simp [token, h], by simp⟩

theorem token_of_ne (kind : Kind) (last : Lexeme) (ts : List Lexeme)
    (h : ∀ t ∈ ts.head?, t.value ≠ kind) :
    token kind last ts = (.missing (ts.headD last), ts) := by
  simp [token, token?_of_ne kind last ts h]

theorem token_of_head {kind : Kind} {last : Lexeme} {place : Place} {ts : List Lexeme} :
    token kind last (⟨kind, place⟩ :: ts) = (.found place, ts) := by
  simp [token, token?_of_head]

theorem mark_reads (mark : Delimiter) : Reads (Parse.mark mark) (Slot.parts mark.part) fun _ => True :=
  token_reads _

theorem mark_of_head {mark : Delimiter} {last : Lexeme} {place : Place} {ts : List Lexeme} :
    Parse.mark mark last (⟨.delimiter mark, place⟩ :: ts) = (.found place, ts) := token_of_head

theorem operator?_cases (ops : List Operator) (last : Lexeme) (ts : List Lexeme) :
    (∃ (op : At Operator) (behind : _), op.value ∈ ops ∧
      ts = ⟨.operator op.value, op.place⟩ :: behind ∧ operator? ops last ts = (some op, behind)) ∨
    ((∀ t ∈ ts.head?, ∀ op ∈ ops, t.value ≠ .operator op) ∧ operator? ops last ts = (none, ts)) := by
  rcases accept?_cases (operatorAmong ops) last ts with ⟨t, behind, op, rfl, found, h⟩ | ⟨other, h⟩
  · refine .inl ⟨⟨op, t.place⟩, behind, ?_⟩
    obtain ⟨value, place⟩ := t
    cases value <;> simp [operatorAmong] at found
    obtain ⟨among, rfl⟩ := found
    exact ⟨among, rfl, h⟩
  · refine .inr ⟨?_, h⟩
    intro t ht op among same
    have refused := other t ht
    simp [same, operatorAmong, among] at refused

theorem operator?_of_head {ops : List Operator} {op : At Operator} {last : Lexeme}
    {ts : List Lexeme} (h : op.value ∈ ops) :
    operator? ops last (⟨.operator op.value, op.place⟩ :: ts) = (some op, ts) := by
  simp [operator?, accept?, operatorAmong, h]

theorem operator?_of_ne (ops : List Operator) (last : Lexeme) (ts : List Lexeme)
    (h : ∀ t ∈ ts.head?, ∀ op ∈ ops, t.value ≠ .operator op) :
    operator? ops last ts = (none, ts) := by
  rcases operator?_cases ops last ts with ⟨op, behind, among, rfl, -⟩ | ⟨-, none⟩
  · simp only [List.head?_cons, Option.mem_def, Option.some.injEq, forall_eq'] at h
    exact absurd rfl (h op.value among)
  · exact none

theorem name?_cases (last : Lexeme) (ts : List Lexeme) :
    (∃ (name : Name) (behind : _), ts = ⟨.identifier name.value, name.place⟩ :: behind ∧
      name? last ts = (some name, behind)) ∨
    ((∀ t ∈ ts.head?, ∀ text, t.value ≠ .identifier text) ∧ name? last ts = (none, ts)) := by
  rcases accept?_cases nameOf last ts with ⟨t, behind, text, rfl, found, h⟩ | ⟨other, h⟩
  · refine .inl ⟨⟨text, t.place⟩, behind, ?_, h⟩
    obtain ⟨value, place⟩ := t
    cases value <;> simp [nameOf] at found
    rw [found]
  · refine .inr ⟨?_, h⟩
    intro t ht text same
    have refused := other t ht
    simp [same, nameOf] at refused

theorem name?_of_head {name : Name} {last : Lexeme} {ts : List Lexeme} :
    name? last (⟨.identifier name.value, name.place⟩ :: ts) = (some name, ts) := rfl

theorem name_reads : Reads Parse.name (Slot.parts namePart) fun _ => True := by
  intro last ts
  rcases name?_cases last ts with ⟨name, behind, rfl, h⟩ | ⟨-, h⟩
  · exact ⟨.found name, behind, by simp [Parse.name, h], by simp⟩
  · exact ⟨.missing (ts.headD last), ts, by simp [Parse.name, h], by simp⟩

theorem name_of_head {name : Name} {last : Lexeme} {ts : List Lexeme} :
    Parse.name last (⟨.identifier name.value, name.place⟩ :: ts) = (.found name, ts) := rfl

end Parse

end PlainC
