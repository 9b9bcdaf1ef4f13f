import Mathlib.Data.List.Forall2

/-!
# Runs of a machine

A machine takes one event after another. `run` is the state after a list of events, `AllSteps C` says that
every event of a run meets the condition `C` in the state it meets, and the rules below turn a fact about one
step into a fact about whole runs.
-/

namespace BookingSystem.Base

variable {σ ε : Type} (step : σ → ε → σ)

def run (s : σ) (es : List ε) : σ := es.foldl step s

@[simp] theorem run_nil (s : σ) : run step s [] = s := rfl
@[simp] theorem run_cons (s : σ) (e : ε) (es : List ε) : run step s (e :: es) = run step (step s e) es := rfl

theorem run_append (s : σ) (es fs : List ε) : run step s (es ++ fs) = run step (run step s es) fs := by
  simp [run]

def moves : σ → List ε → List (σ × σ)
  | _, [] => []
  | s, e :: es => (s, step s e) :: moves (step s e) es

theorem mem_moves {s : σ} {es : List ε} {m : σ × σ} :
    m ∈ moves step s es ↔ ∃ p e q, es = p ++ e :: q ∧ m = (run step s p, step (run step s p) e) := by
  induction es generalizing s with
  | nil => simp [moves]
  | cons e es ih =>
    rw [moves, List.mem_cons, ih]
    constructor
    · rintro (rfl | ⟨p, e', q, rfl, rfl⟩)
      · exact ⟨[], e, es, rfl, rfl⟩
      · exact ⟨e :: p, e', q, rfl, rfl⟩
    · rintro ⟨p, e', q, hes, rfl⟩
      cases p with
      | nil =>
        obtain ⟨rfl, rfl⟩ := List.cons.inj hes
        exact .inl rfl
      | cons e'' p =>
        obtain ⟨rfl, rfl⟩ := List.cons.inj hes
        exact .inr ⟨p, e', q, rfl, rfl⟩

/-- Every event of the run meets `C` in the state it is taken in. -/
def AllSteps (C : σ → ε → Prop) : σ → List ε → Prop
  | _, [] => True
  | s, e :: es => C s e ∧ AllSteps C (step s e) es

variable {step} {s : σ} {es : List ε} {C : σ → ε → Prop} {I : σ → Prop}

theorem allSteps_append {fs : List ε} :
    AllSteps step C s (es ++ fs) ↔ AllSteps step C s es ∧ AllSteps step C (run step s es) fs := by
  induction es generalizing s with
  | nil => simp [AllSteps]
  | cons e es ih => simp [AllSteps, ih, and_assoc]

theorem allSteps_iff : AllSteps step C s es ↔ ∀ p e r, es = p ++ e :: r → C (run step s p) e := by
  constructor
  · rintro h p e r rfl
    exact (allSteps_append.1 h).2.1
  · intro h
    induction es generalizing s with
    | nil => trivial
    | cons e es ih =>
      refine ⟨h [] e es rfl, ih fun p e' r hes => ?_⟩
      exact h (e :: p) e' r (by rw [hes]; rfl)

theorem allSteps_congr {D : σ → ε → Prop} (hiff : ∀ s e, I s → (C s e ↔ D s e))
    (hkeep : ∀ s e, I s → C s e → I (step s e)) (hs : I s) : AllSteps step C s es ↔ AllSteps step D s es := by
  induction es generalizing s with
  | nil => exact Iff.rfl
  | cons e es ih =>
    have hhead := hiff s e hs
    constructor
    · rintro ⟨hC, hrest⟩
      exact ⟨hhead.1 hC, (ih (hkeep s e hs hC)).1 hrest⟩
    · rintro ⟨hD, hrest⟩
      exact ⟨hhead.2 hD, (ih (hkeep s e hs (hhead.2 hD))).2 hrest⟩

theorem allSteps_iff_forall_prefix {P : σ → Prop} {D : ε → Prop} (hP : ∀ s, I s → P s)
    (hkeep : ∀ s e, I s → D e → C s e → I (step s e)) (hback : ∀ s e, I s → D e → P (step s e) → C s e) (hs : I s)
    (hD : ∀ e ∈ es, D e) : AllSteps step C s es ↔ ∀ p q, es = p ++ q → P (run step s p) := by
  induction es generalizing s with
  | nil =>
    refine ⟨fun _ p q h => ?_, fun _ => trivial⟩
    rw [(List.append_eq_nil_iff.1 h.symm).1]
    exact hP s hs
  | cons e es ih =>
    have he : D e := hD e List.mem_cons_self
    have hD' : ∀ e' ∈ es, D e' := fun e' h => hD e' (List.mem_cons_of_mem _ h)
    constructor
    · rintro ⟨hC, hrest⟩ p q h
      cases p with
      | nil => exact hP s hs
      | cons e' p =>
        obtain ⟨rfl, rfl⟩ := List.cons.inj h
        exact (ih (hkeep s e hs he hC) hD').1 hrest p q rfl
    · intro h
      have hC : C s e := hback s e hs he (h [e] es rfl)
      exact ⟨hC, (ih (hkeep s e hs he hC) hD').2 fun p q hpq => h (e :: p) q (by rw [hpq]; rfl)⟩

theorem allSteps_of_forall (h : ∀ s e, C s e) (s : σ) (es : List ε) : AllSteps step C s es := by
  induction es generalizing s with
  | nil => trivial
  | cons e es ih => exact ⟨h s e, ih _⟩

/-- **Invariants.** What every step that meets the condition keeps holds after every run whose steps meet it. -/
theorem run_invariant (hstep : ∀ s e, I s → C s e → I (step s e)) (hs : I s) (hC : AllSteps step C s es) :
    I (run step s es) := by
  induction es generalizing s with
  | nil => exact hs
  | cons e es ih => exact ih (hstep s e hs hC.1) hC.2

theorem foldl_invariant {P : σ → Prop} (hstep : ∀ s, ∀ e ∈ es, P s → P (step s e)) (hs : P s) :
    P (es.foldl step s) := by
  induction es generalizing s with
  | nil => exact hs
  | cons e es ih =>
    exact ih (fun s e' he' => hstep s e' (List.mem_cons_of_mem _ he')) (hstep s e List.mem_cons_self hs)

/-- **Two-state invariants.** A reflexive and transitive relation between the states before and after every step
relates the two ends of every run; `I` is an invariant the step lemma may use. -/
theorem run_related {R : σ → σ → Prop} (hrefl : ∀ s, R s s) (htrans : ∀ a b c, R a b → R b c → R a c)
    (hinv : ∀ s e, I s → C s e → I (step s e)) (hstep : ∀ s e, I s → C s e → R s (step s e)) (hs : I s)
    (hC : AllSteps step C s es) : R s (run step s es) := by
  induction es generalizing s with
  | nil => exact hrefl s
  | cons e es ih =>
    exact htrans _ _ _ (hstep s e hs hC.1) (ih (hinv s e hs hC.1) hC.2)

theorem allSteps_iff_related {R : σ → σ → Prop} (hrefl : ∀ s, R s s) (htrans : ∀ a b c, R a b → R b c → R a c)
    (hstep : ∀ s e, R s (step s e) ↔ C s e) :
    AllSteps step C s es ↔ ∀ p q r, es = p ++ q ++ r → R (run step s p) (run step s (p ++ q)) := by
  constructor
  · rintro h p q r rfl
    rw [List.append_assoc, allSteps_append, allSteps_append] at h
    rw [run_append]
    exact run_related (I := fun _ => True) hrefl htrans (fun _ _ _ _ => trivial) (fun s e _ hC => (hstep s e).2 hC)
      trivial h.2.1
  · intro h
    refine allSteps_iff.2 fun p e r hes => (hstep _ e).1 ?_
    have hmove := h p [e] r (by rw [hes]; simp)
    rwa [run_append] at hmove

theorem filterMap_eq_iff {ε' α : Type} {f : ε → Option α} {g : ε' → Option α} {es' : List ε'}
    (h : List.Forall₂ (fun e e' => (f e).isSome = (g e').isSome) es es') :
    es.filterMap f = es'.filterMap g ↔ List.Forall₂ (fun e e' => f e = g e') es es' := by
  induction h with
  | nil => simp
  | @cons e e' es es' hsame _ ih =>
    rw [List.forall₂_cons, ← ih]
    cases he : f e with
    | none =>
      have he' : g e' = none := by
        rw [← Option.isNone_iff_eq_none, ← Option.not_isSome, ← hsame, he]
        rfl
      rw [List.filterMap_cons_none he, List.filterMap_cons_none he', he']
      simp
    | some a =>
      obtain ⟨a', he'⟩ := Option.isSome_iff_exists.1 (hsame.symm.trans (by rw [he]; rfl))
      rw [List.filterMap_cons_some he, List.filterMap_cons_some he', he', List.cons.injEq, Option.some.injEq]

end BookingSystem.Base
