import PlainC.Proofs.Grammar.Basic
import PlainC.Proofs.Syntax.Parts

set_option autoImplicit false

/-!
Meanings of rules: sets of lists of lexemes. If they are closed under the rules, then whatever a rule
derives is in its meaning. What is repeated in a form is put together to a tree from the left to the
right.
-/

namespace PlainC

namespace Grammar

open Form

/-- The lexemes are those of a good tree without gaps. -/
def Spelled {α : Type} (good : α → Prop) (view : α → Parts) (ts : List Lexeme) : Prop :=
  ∃ a, good a ∧ Gapless (view a) ∧ ts = lexemesOf (view a)

/-- What a form means if the rules mean something. -/
def Form.Holds (meaning : Nonterminal → List Lexeme → Prop) : Form → List Lexeme → Prop
  | token terminal, ts => ∃ t, ts = [t] ∧ terminal.Allows t.value
  | rule name, ts => meaning name ts
  | seq first second, ts =>
    ∃ us vs, ts = us ++ vs ∧ first.Holds meaning us ∧ second.Holds meaning vs
  | alt left right, ts => left.Holds meaning ts ∨ right.Holds meaning ts
  | opt form, ts => ts = [] ∨ form.Holds meaning ts
  | star form, ts => ∃ words : List (List Lexeme), ts = words.flatten ∧ ∀ us ∈ words, form.Holds meaning us

section

variable {meaning : Nonterminal → List Lexeme → Prop}

/-- Whatever is closed under the rules holds of all that they derive. -/
theorem Derives.holds (closed : ∀ name ts, (production name).Holds meaning ts → meaning name ts)
    {form : Form} {kinds : List Kind} (h : Derives form kinds) :
    ∀ ts : List Lexeme, ts.map At.value = kinds → form.Holds meaning ts := by
  induction h with
  | token allows =>
    intro ts same
    obtain ⟨t, rfl, rfl⟩ := List.map_eq_singleton_iff.mp same
    exact ⟨t, rfl, allows⟩
  | rule _ ih => exact fun ts same => closed _ ts (ih ts same)
  | seq _ _ ih₁ ih₂ =>
    intro ts same
    obtain ⟨us, vs, rfl, sameUs, sameVs⟩ := List.map_eq_append_iff.mp same
    exact ⟨us, vs, rfl, ih₁ us sameUs, ih₂ vs sameVs⟩
  | left _ ih => exact fun ts same => .inl (ih ts same)
  | right _ ih => exact fun ts same => .inr (ih ts same)
  | none => exact fun ts same => .inl (by simpa using same)
  | some _ ih => exact fun ts same => .inr (ih ts same)
  | nil => exact fun ts same => ⟨[], by simpa using same, by simp⟩
  | cons _ _ ih₁ ih₂ =>
    intro ts same
    obtain ⟨us, vs, rfl, sameUs, sameVs⟩ := List.map_eq_append_iff.mp same
    obtain ⟨words, rfl, each⟩ := ih₂ vs sameVs
    exact ⟨us :: words, by simp, by simpa using ⟨ih₁ us sameUs, each⟩⟩

variable {first second form ops item : Form} {ts : List Lexeme}

@[simp] theorem holds_append : (first ++ second).Holds meaning ts ↔
    ∃ us vs, ts = us ++ vs ∧ first.Holds meaning us ∧ second.Holds meaning vs := Iff.rfl

@[simp] theorem holds_rule {name : Nonterminal} :
    (rule name).Holds meaning ts ↔ meaning name ts := Iff.rfl

@[simp] theorem holds_mark {mark : Delimiter} :
    (Form.mark mark).Holds meaning ts ↔ ∃ place, ts = lexemesOf (mark.part place) := by
  constructor
  · rintro ⟨⟨value, place⟩, rfl, rfl⟩
    exact ⟨place, rfl⟩
  · rintro ⟨place, rfl⟩
    exact ⟨_, rfl, rfl⟩

@[simp] theorem holds_word {word : Keyword} :
    (Form.word word).Holds meaning ts ↔ ∃ place, ts = lexemesOf (word.part place) := by
  constructor
  · rintro ⟨⟨value, place⟩, rfl, rfl⟩
    exact ⟨place, rfl⟩
  · rintro ⟨place, rfl⟩
    exact ⟨_, rfl, rfl⟩

@[simp] theorem holds_op {op : Operator} :
    (Form.op op).Holds meaning ts ↔ ∃ place, ts = lexemesOf ((Kind.operator op).part place) := by
  constructor
  · rintro ⟨⟨value, place⟩, rfl, rfl⟩
    exact ⟨place, rfl⟩
  · rintro ⟨place, rfl⟩
    exact ⟨_, rfl, rfl⟩

@[simp] theorem holds_name :
    Form.name.Holds meaning ts ↔ ∃ name : Name, ts = lexemesOf (namePart name) := by
  constructor
  · rintro ⟨⟨value, place⟩, rfl, text, rfl⟩
    exact ⟨⟨text, place⟩, rfl⟩
  · rintro ⟨name, rfl⟩
    exact ⟨_, rfl, _, rfl⟩

@[simp] theorem holds_literal {literal : LiteralForm} :
    (token (.literal literal)).Holds meaning ts ↔
      ∃ text : Name, ts = lexemesOf ((Kind.literal literal text.value).part text.place) := by
  constructor
  · rintro ⟨⟨value, place⟩, rfl, text, rfl⟩
    exact ⟨⟨text, place⟩, rfl⟩
  · rintro ⟨text, rfl⟩
    exact ⟨_, rfl, _, rfl⟩

/-! ### Repetitions -/

variable {α : Type} {good : α → Prop} {view : α → Parts}

theorem spelled_of_opt (each : ∀ us, form.Holds meaning us → Spelled good view us)
    (h : (opt form).Holds meaning ts) :
    Spelled (fun value : Option α => ∀ a ∈ value, good a) (optionalParts view) ts := by
  rcases h with rfl | h
  · exact ⟨none, by simp, rfl, rfl⟩
  · obtain ⟨a, isGood, gapless, rfl⟩ := each ts h
    exact ⟨some a, by simpa using isGood, gapless, rfl⟩

theorem spelled_of_star (each : ∀ us, form.Holds meaning us → Spelled good view us)
    (h : (star form).Holds meaning ts) :
    Spelled (fun items : List α => ∀ a ∈ items, good a) (List.flatMap view) ts := by
  obtain ⟨words, rfl, each'⟩ := h
  induction words with
  | nil => exact ⟨[], by simp, rfl, rfl⟩
  | cons us words ih =>
    obtain ⟨a, isGood, gapless, rfl⟩ := each us (each' us (by simp))
    obtain ⟨items, areGood, gapless', same⟩ := ih fun vs among => each' vs (by simp [among])
    exact ⟨a :: items, by simpa using ⟨isGood, areGood⟩, by simp [gapless, gapless'], by simp [same]⟩

theorem spelled_of_list (each : ∀ us, form.Holds meaning us → Spelled good view us)
    (h : (list form).Holds meaning ts) :
    Spelled (fun items : Separated α => ∀ a ∈ items.toList, good a) (Separated.parts view) ts := by
  obtain ⟨us, vs, rfl, h, words, rfl, each'⟩ := h
  obtain ⟨a, isGood, gapless, rfl⟩ := each us h
  suffices Spelled (fun items : List (Place × α) => ∀ b ∈ items.map Prod.snd, good b)
      (Separated.restParts view) words.flatten by
    obtain ⟨items, areGood, gapless', same⟩ := this
    exact ⟨⟨a, items⟩, by simpa [Separated.toList] using ⟨isGood, by simpa using areGood⟩,
      by simp [Separated.parts, gapless, gapless'], by simp [Separated.parts, same]⟩
  clear h
  induction words with
  | nil => exact ⟨[], by simp, rfl, rfl⟩
  | cons us words ih =>
    obtain ⟨_, vs, rfl, ⟨⟨_, comma⟩, rfl, rfl⟩, h⟩ := each' us (by simp)
    obtain ⟨b, isGood', gapless₁, rfl⟩ := each vs h
    obtain ⟨items, areGood, gapless₂, same⟩ := ih fun vs among => each' vs (by simp [among])
    exact ⟨(comma, b) :: items, by simpa using ⟨isGood', by simpa using areGood⟩,
      by simp [Separated.restParts, gapless₁, gapless₂], by simp [Separated.restParts, same]⟩

/-- What is added to a tree from the left to the right makes a tree. -/
theorem spelled_of_suffixes
    (add : ∀ a us, good a → Gapless (view a) → form.Holds meaning us →
      Spelled good view (lexemesOf (view a) ++ us))
    (h : (star form).Holds meaning ts) :
    ∀ a, good a → Gapless (view a) → Spelled good view (lexemesOf (view a) ++ ts) := by
  obtain ⟨words, rfl, each⟩ := h
  induction words with
  | nil => exact fun a isGood gapless => ⟨a, isGood, gapless, by simp⟩
  | cons us words ih =>
    intro a isGood gapless
    obtain ⟨b, isGood', gapless', same⟩ := add a us isGood gapless (each us (by simp))
    rw [List.flatten_cons, ← List.append_assoc, same]
    exact ih (fun vs among => each vs (by simp [among])) b isGood' gapless'

/-- Operands with operators between them make a tree that leans to the left. -/
theorem spelled_of_chain (goodOperand : α → Prop) (among : Operator → Prop)
    (build : At Operator → α → α → α)
    (operators : ∀ us, ops.Holds meaning us →
      ∃ op : At Operator, among op.value ∧ us = lexemesOf (operatorPart op))
    (operands : ∀ us, item.Holds meaning us → Spelled goodOperand view us)
    (alone : ∀ a, goodOperand a → good a)
    (next : ∀ op left right, among op.value → good left → goodOperand right → good (build op left right))
    (parts : ∀ op left right, view (build op left right) = view left ++ operatorPart op ++ view right)
    (h : (chain ops item).Holds meaning ts) : Spelled good view ts := by
  obtain ⟨us, vs, rfl, h, more⟩ := h
  obtain ⟨first, isGood, gapless, rfl⟩ := operands us h
  refine spelled_of_suffixes ?_ more first (alone first isGood) gapless
  rintro left _ isGood gapless ⟨_, ws, rfl, hop, hright⟩
  obtain ⟨op, isAmong, rfl⟩ := operators _ hop
  obtain ⟨right, isGood', gapless', rfl⟩ := operands ws hright
  refine ⟨build op left right, next op left right isAmong isGood isGood', ?_, ?_⟩
  · simp [parts, gapless, gapless']
  · simp [parts]

end

end Grammar

end PlainC
