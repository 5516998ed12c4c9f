set_option autoImplicit false

/-!
The log: what a run has to tell about its progress.
-/

namespace PlainC

inductive LogRecord where
  | scanned (count : Nat)
  /-- The reading went back to an earlier token, which stands on a line. -/
  | backtracked (source target line : Nat)
  | declaredStruct (name : String) (members : Nat)
  | declaredFunction (name : String) (depth released : Nat)
  | finished (position count : Nat)
  | fileScanned (file : String) (count : Nat)
  | fileAnalyzed (file : String)
  deriving DecidableEq, Repr

namespace LogRecord

def level : LogRecord → String
  | backtracked .. => "TRACE"
  | _ => "DEBUG"

def message : LogRecord → String
  | scanned count => "scanned " ++ toString count ++ " tokens"
  | backtracked source target line =>
    "backtracking from token " ++ toString source ++ " to token " ++ toString target ++
      " (line " ++ toString line ++ ")"
  | declaredStruct name members =>
    "declared struct " ++ name ++ " with " ++ toString members ++ " members"
  | declaredFunction name depth released =>
    "declared function " ++ name ++ " at depth " ++ toString depth ++ " (" ++ toString released ++
      " parameters and locals released)"
  | finished position count =>
    "analysis finished at token " ++ toString position ++ " of " ++ toString count
  | fileScanned file count => file ++ ": scanned " ++ toString count ++ " tokens"
  | fileAnalyzed file => file ++ ": analysis succeeded"

end LogRecord

/-- A computation that writes to the log and ends with a value or an error. What it wrote stays
written when it fails. -/
structure Logged (ε α : Type) where
  records : List LogRecord
  result : Except ε α
  deriving Repr

namespace Logged

variable {ε α β : Type}

instance : Monad (Logged ε) where
  pure a := ⟨[], .ok a⟩
  bind x next :=
    match x.result with
    | .error e => ⟨x.records, .error e⟩
    | .ok a => ⟨x.records ++ (next a).records, (next a).result⟩

theorem bind_of_ok {x : Logged ε α} {a : α} (next : α → Logged ε β) (h : x.result = .ok a) :
    x >>= next = ⟨x.records ++ (next a).records, (next a).result⟩ := by
  simp [bind, h]

theorem bind_of_error {x : Logged ε α} {e : ε} (next : α → Logged ε β)
    (h : x.result = .error e) : x >>= next = ⟨x.records, .error e⟩ := by
  simp [bind, h]

@[simp] theorem result_pure (a : α) : (pure a : Logged ε α).result = .ok a := rfl

theorem result_bind (x : Logged ε α) (next : α → Logged ε β) :
    (x >>= next).result = x.result >>= fun a => (next a).result := by
  match x with
  | ⟨_, .ok _⟩ => rfl
  | ⟨_, .error _⟩ => rfl

instance : LawfulMonad (Logged ε) :=
  LawfulMonad.mk' (Logged ε)
    (fun x => match x with
      | ⟨records, .ok a⟩ => by simp [Functor.map]
      | ⟨_, .error _⟩ => rfl)
    (fun _ _ => by simp [bind, pure])
    (fun x next after => match x with
      | ⟨_, .error _⟩ => rfl
      | ⟨records, .ok a⟩ => by
        simp only [bind]
        cases (next a).result <;> simp)

def fail (e : ε) : Logged ε α := ⟨[], .error e⟩

def write (record : LogRecord) : Logged ε Unit := ⟨[record], .ok ()⟩

/-- The computation without the first thing it writes. -/
def withoutFirst (x : Logged ε α) : Logged ε α := { x with records := x.records.drop 1 }

/-- The computation with its error put in other terms. -/
def mapError {ε' : Type} (change : ε → ε') (x : Logged ε α) : Logged ε' α :=
  ⟨x.records, x.result.mapError change⟩

end Logged

end PlainC
