import BookingSystem.Base.Run
import Mathlib.Algebra.Order.Group.Int
import Mathlib.Data.List.ReduceOption

/-!
# Machines that answer

A machine that answers every event. Two machines give the same answers when their states stay related, where the
relation may speak of the time: the events come with a clock that does not go back.
-/

namespace BookingSystem.Base

variable {σ τ ε α : Type}

def answers (step : σ → ε → σ × α) : σ → List ε → List α
  | _, [] => []
  | s, e :: es => (step s e).2 :: answers step (step s e).1 es

theorem answers_append (step : σ → ε → σ × α) (s : σ) (es fs : List ε) :
    answers step s (es ++ fs) = answers step s es ++ answers step (run (fun s e => (step s e).1) s es) fs := by
  induction es generalizing s with
  | nil => rfl
  | cons e es ih => rw [List.cons_append, answers, answers, ih, run_cons, List.cons_append]

theorem length_answers (step : σ → ε → σ × α) (s : σ) (es : List ε) : (answers step s es).length = es.length := by
  induction es generalizing s with
  | nil => rfl
  | cons e es ih => rw [answers, List.length_cons, ih, List.length_cons]

section Clock

variable (time : ε → ℤ)

/-- The clock does not go back. -/
def InTime (es : List ε) : Prop := es.Pairwise fun e e' => time e ≤ time e'

variable {time} {step : σ → ε → σ × α} {step' : τ → ε → τ × α} {R : ℤ → σ → τ → Prop}

/-- **Simulation.** States that are related at a time stay so as time passes, and a step keeps them related. -/
theorem answers_eq_of_related (hlater : ∀ {t t' s s'}, t ≤ t' → R t s s' → R t' s s')
    (hstep : ∀ {s s' e}, R (time e) s s' →
      (step s e).2 = (step' s' e).2 ∧ R (time e) (step s e).1 (step' s' e).1)
    {es : List ε} (hes : InTime time es) {s : σ} {s' : τ} (h : ∀ e ∈ es, R (time e) s s') :
    answers step s es = answers step' s' es := by
  induction es generalizing s s' with
  | nil => rfl
  | cons e es ih =>
    obtain ⟨hfirst, hrest⟩ := List.pairwise_cons.1 hes
    obtain ⟨hanswer, hnext⟩ := hstep (h e List.mem_cons_self)
    rw [answers, answers, hanswer, ih hrest fun e' he' => hlater (hfirst e' he') hnext]

end Clock

theorem answers_filter {step : σ → ε → σ × Option α} {idle : ε → Bool}
    (hidle : ∀ s e, idle e = true → step s e = (s, none)) (s : σ) (es : List ε) :
    (answers step s (es.filter fun e => !idle e)).reduceOption = (answers step s es).reduceOption := by
  induction es generalizing s with
  | nil => rfl
  | cons e es ih =>
    cases he : idle e with
    | true =>
      rw [List.filter_cons_of_neg (by rw [he]; decide), answers, hidle s e he, List.reduceOption_cons_of_none, ih]
    | false =>
      rw [List.filter_cons_of_pos (by rw [he]; decide), answers, answers]
      cases (step s e).2 with
      | none => rw [List.reduceOption_cons_of_none, List.reduceOption_cons_of_none, ih]
      | some a => rw [List.reduceOption_cons_of_some, List.reduceOption_cons_of_some, ih]

end BookingSystem.Base
