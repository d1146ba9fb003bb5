/-!
Programs that ask questions.

A program ends with a value, or asks a question and goes on with the answer. What answers, and what happens between a
question and its answer, is left to an interpretation: `Program.run` answers one question after the other, and
`Program.serve` does so for as long as answers come.
-/

namespace Reaper

/-- A program over questions `Q`, where question `q` is answered by an `A q`. -/
inductive Program (Q : Type) (A : Q → Type) (α : Type) where
  | done (value : α)
  | ask (question : Q) (next : A question → Program Q A α)

namespace Program

variable {Q : Type} {A : Q → Type} {α β σ : Type}

/-- One program after the other. -/
def bind (p : Program Q A α) (f : α → Program Q A β) : Program Q A β :=
  match p with
  | done a => f a
  | ask q next => ask q fun a => (next a).bind f

instance : Monad (Program Q A) where
  pure := done
  bind := bind

def query (q : Q) : Program Q A (A q) := ask q done

/-- Runs a program, answering its questions one by one; none when an answer is missing. -/
def run (answer : (q : Q) → σ → Option (A q × σ)) : Program Q A α → σ → Option (α × σ)
  | done a, s => some (a, s)
  | ask q next, s =>
    match answer q s with
    | none => none
    | some (a, s) => (next a).run answer s

/-- A program in two parts runs one part after the other. -/
theorem run_bind (answer : (q : Q) → σ → Option (A q × σ)) (p : Program Q A α) (f : α → Program Q A β) (s : σ) :
    (p.bind f).run answer s = (p.run answer s).bind fun r => (f r.1).run answer r.2 := by
  induction p generalizing s with
  | done a => rfl
  | ask q next ih =>
    simp only [bind, run]
    cases answer q s with
    | none => rfl
    | some r => exact ih r.1 r.2

/-- Runs a program with answers that may fail to come. The state is kept in any case; there is no value when an answer
is missing. -/
def serve (answer : (q : Q) → σ → Option (A q) × σ) : Program Q A α → σ → Option α × σ
  | done a, s => (some a, s)
  | ask q next, s =>
    match answer q s with
    | (none, s) => (none, s)
    | (some a, s) => (next a).serve answer s

/-- A program in two parts is served one part after the other. -/
theorem serve_bind (answer : (q : Q) → σ → Option (A q) × σ) (p : Program Q A α) (f : α → Program Q A β) (s : σ) :
    (p.bind f).serve answer s =
      match p.serve answer s with
      | (none, s) => (none, s)
      | (some a, s) => (f a).serve answer s := by
  induction p generalizing s with
  | done a => rfl
  | ask q next ih =>
    simp only [bind, serve]
    rcases answer q s with ⟨_ | a, s⟩
    · rfl
    · exact ih a s

/-- Of three programs one after the other, the last two go together as well as the first two. -/
theorem bind_assoc {γ : Type} (p : Program Q A α) (f : α → Program Q A β) (g : β → Program Q A γ) :
    (p.bind f).bind g = p.bind fun a => (f a).bind g := by
  induction p with
  | done a => rfl
  | ask q next ih =>
    simp only [bind]
    congr 1
    funext a
    exact ih a

/-- Puts a program over other questions in place of every question. -/
def expand {Q' : Type} {A' : Q' → Type} (f : (q : Q) → Program Q' A' (A q)) : Program Q A α → Program Q' A' α
  | done a => .done a
  | ask q next => (f q).bind fun a => (next a).expand f

end Program

end Reaper
