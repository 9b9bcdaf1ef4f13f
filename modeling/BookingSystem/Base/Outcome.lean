import Mathlib.Logic.Basic
import Mathlib.Data.List.Basic

/-!
# Steps and programs that may fail

The two ways a step gives up, `require` (a test that fails) and `found` (a lookup that finds nothing), and
how a run that ended well is taken apart: `bind_eq_ok` peels one step off, and the lemmas on `require` and
`found` say what the step that was peeled off has shown.

A program reads and writes a state and ends with a value or with an error; an error keeps what was done before it.
`Triple P m Q E` says that from every state in `P` the program ends with a value and a state in `Q`, or with an error
and a state in `E`. There is a rule for each way to put programs together, and for a loop over a list an invariant that
may speak of what is left.
-/

namespace BookingSystem.Base

section

variable {ε α β : Type}

def require (c : Bool) (e : ε) : Except ε Unit := if c then .ok () else .error e

/-- The value of a lookup; stops with `e` when there is none. -/
def found (o : Option α) (e : ε) : Except ε α :=
  match o with
  | some a => .ok a
  | none => .error e

@[simp] theorem require_eq_ok {c : Bool} {e : ε} {u : Unit} : require c e = .ok u ↔ c = true := by
  cases c <;> simp [require]

theorem require_of {c : Bool} {e : ε} (h : c = true) : require c e = .ok () := require_eq_ok.2 h

@[simp] theorem found_eq_ok {o : Option α} {e : ε} {a : α} : found o e = .ok a ↔ o = some a := by
  cases o <;> simp [found]

@[simp] theorem mapError_eq_ok {ε' : Type} {x : Except ε α} {f : ε → ε'} {a : α} :
    x.mapError f = .ok a ↔ x = .ok a := by
  cases x with
  | error e =>
    change Except.error (f e) = Except.ok a ↔ Except.error e = Except.ok a
    simp only [reduceCtorEq]
  | ok b =>
    change Except.ok b = Except.ok a ↔ Except.ok b = Except.ok a
    simp only [Except.ok.injEq]

theorem require_eq_error {c : Bool} {e e' : ε} : require c e = .error e' ↔ c = false ∧ e = e' := by
  cases c <;> simp [require]

theorem bind_eq_ok {x : Except ε α} {f : α → Except ε β} {b : β} :
    (x >>= f) = .ok b ↔ ∃ a, x = .ok a ∧ f a = .ok b := by
  cases x with
  | error e => simp [bind, Except.bind]
  | ok a => simp [bind, Except.bind]

theorem bind_eq_error {x : Except ε α} {f : α → Except ε β} {e : ε} :
    (x >>= f) = .error e ↔ x = .error e ∨ ∃ a, x = .ok a ∧ f a = .error e := by
  cases x with
  | error e => simp [bind, Except.bind]
  | ok a => simp [bind, Except.bind]

theorem map_eq_error {x : Except ε α} {f : α → β} {e : ε} : x.map f = .error e ↔ x = .error e := by
  cases x with
  | error e => exact ⟨fun h => congrArg _ (Except.error.inj h), fun h => congrArg _ (Except.error.inj h)⟩
  | ok a => exact ⟨nofun, nofun⟩

theorem exists_bind_ok {x : Except ε α} {f : α → Except ε β} {a : α} (hx : x = .ok a) (hf : ∃ b, f a = .ok b) :
    ∃ b, (x >>= f) = .ok b := by
  obtain ⟨b, hb⟩ := hf
  exact ⟨b, bind_eq_ok.2 ⟨a, hx, hb⟩⟩

@[simp] theorem pure_eq_ok {a b : α} : (pure a : Except ε α) = .ok b ↔ a = b := by
  simp [pure, Except.pure]

@[simp] theorem throw_eq_ok {e : ε} {b : α} : (throw e : Except ε α) = .ok b ↔ False := by
  simp [throw, throwThe, MonadExceptOf.throw]

/-- A step that ended well on a whole list did so on each of its elements. -/
theorem ok_of_mapM_ok {xs : List α} {ys : List β} {f : α → Except ε β} (h : xs.mapM f = .ok ys) {x : α}
    (hx : x ∈ xs) : ∃ y, f x = .ok y := by
  induction xs generalizing ys with
  | nil => cases hx
  | cons x' xs ih =>
    rw [List.mapM_cons, bind_eq_ok] at h
    obtain ⟨y, hy, h⟩ := h
    obtain ⟨ys', hys, -⟩ := bind_eq_ok.1 h
    rcases List.mem_cons.1 hx with rfl | hx
    · exact ⟨y, hy⟩
    · exact ih hys hx

theorem toOption_eq_some {x : Except ε α} {a : α} : x.toOption = some a ↔ x = .ok a := by
  cases x <;> simp [Except.toOption]

theorem toOption_bind (x : Except ε α) (f : α → Except ε β) :
    (x >>= f).toOption = x.toOption.bind fun a => (f a).toOption := by
  cases x <;> rfl

def settle (x : Except ε (α × β)) (old : α) : α :=
  match x with
  | .ok r => r.1
  | .error _ => old

@[simp] theorem settle_ok (r : α × β) (old : α) : settle (.ok r : Except ε (α × β)) old = r.1 := rfl

/-- What holds of the old state, and of every state the step can end well in, holds after the step. -/
theorem settle_induction {P : α → Prop} {x : Except ε (α × β)} {old : α} (hold : P old)
    (hok : ∀ r, x = .ok r → P r.1) : P (settle x old) := by
  cases x with
  | error e => exact hold
  | ok r => exact hok r rfl

end

/-! ### Programs -/

abbrev Prog (σ ε : Type) := ExceptT ε (StateM σ)

namespace Prog

variable {σ ε α β : Type}

def of (f : σ → Except ε α × σ) : Prog σ ε α := ExceptT.mk (f : StateM σ (Except ε α))

/-- The outcome and the state of a program that begins in a state. -/
def on (m : Prog σ ε α) (s : σ) : Except ε α × σ := (ExceptT.run m : StateM σ (Except ε α)) s

/-- An outcome that does not touch the state. -/
def lift (x : Except ε α) : Prog σ ε α := of fun s => (x, s)

def read (f : σ → α) : Prog σ ε α := of fun s => (.ok (f s), s)

/-- The program with its outcome as a value: the error does not end what comes after it. -/
def attempt (m : Prog σ ε α) : Prog σ ε (Except ε α) := of fun s => (.ok (m.on s).1, (m.on s).2)

def mapError (f : ε → ε) (m : Prog σ ε α) : Prog σ ε α := of fun s => ((m.on s).1.mapError f, (m.on s).2)

@[simp] theorem on_of (f : σ → Except ε α × σ) (s : σ) : (of f).on s = f s := rfl
@[simp] theorem on_pure (a : α) (s : σ) : (pure a : Prog σ ε α).on s = (.ok a, s) := rfl
@[simp] theorem on_lift (x : Except ε α) (s : σ) : (lift x : Prog σ ε α).on s = (x, s) := rfl
theorem on_bind (m : Prog σ ε α) (f : α → Prog σ ε β) (s : σ) :
    (m >>= f).on s = match m.on s with
      | (.ok a, s') => (f a).on s'
      | (.error e, s') => (.error e, s') := by
  change (match m.on s with | (x, s') => (ExceptT.bindCont f x : StateM σ (Except ε β)) s') = _
  rcases m.on s with ⟨x | a, s'⟩ <;> rfl

/-- **Partial correctness with errors.** -/
def Triple (P : σ → Prop) (m : Prog σ ε α) (Q : α → σ → Prop) (E : ε → σ → Prop) : Prop :=
  ∀ s, P s → (∀ a, (m.on s).1 = .ok a → Q a (m.on s).2) ∧ ∀ e, (m.on s).1 = .error e → E e (m.on s).2

variable {P P' : σ → Prop} {Q Q' : α → σ → Prop} {R : β → σ → Prop} {E E' : ε → σ → Prop} {m : Prog σ ε α}

theorem triple_of {f : σ → Except ε α × σ}
    (h : ∀ s, P s → (∀ a, (f s).1 = .ok a → Q a (f s).2) ∧ ∀ e, (f s).1 = .error e → E e (f s).2) :
    Triple P (of f) Q E := h

theorem Triple.mono (h : Triple P m Q E) (hP : ∀ s, P' s → P s) (hQ : ∀ a s, Q a s → Q' a s)
    (hE : ∀ e s, E e s → E' e s) : Triple P' m Q' E' := fun s hs =>
  ⟨fun a ha => hQ a _ ((h s (hP s hs)).1 a ha), fun e he => hE e _ ((h s (hP s hs)).2 e he)⟩

/-- A fact that the precondition gives may be used for the rest of the program. -/
theorem triple_of_pre {φ : Prop} (hφ : ∀ s, P s → φ) (h : φ → Triple P m Q E) : Triple P m Q E :=
  fun s hs => h (hφ s hs) s hs

theorem triple_false : Triple (fun _ => False) m Q E := fun _ hs => hs.elim

theorem triple_pure {a : α} (h : ∀ s, P s → Q a s) : Triple P (pure a) Q E := fun s hs =>
  ⟨fun _ ha => Except.ok.inj ha ▸ h s hs, nofun⟩

theorem triple_lift {x : Except ε α} (hQ : ∀ a s, x = .ok a → P s → Q a s)
    (hE : ∀ e s, x = .error e → P s → E e s) : Triple P (lift x) Q E := fun s hs =>
  ⟨fun a ha => hQ a s ha hs, fun e he => hE e s he hs⟩

theorem triple_bind {f : α → Prog σ ε β} (hm : Triple P m Q E) (hf : ∀ a, Triple (Q a) (f a) R E) :
    Triple P (m >>= f) R E := by
  intro s hs
  rw [on_bind]
  have h := hm s hs
  rcases hon : m.on s with ⟨x | a, s'⟩
  · rw [hon] at h
    refine ⟨nofun, fun e he => ?_⟩
    obtain rfl := Except.error.inj he
    exact h.2 _ rfl
  · rw [hon] at h
    exact hf a s' (h.1 a rfl)

theorem triple_attempt (h : Triple P m Q E) :
    Triple P (attempt m) (fun x s => (∀ a, x = .ok a → Q a s) ∧ ∀ e, x = .error e → E e s) E' := by
  intro s hs
  refine ⟨fun x hx => ?_, nofun⟩
  obtain rfl := Except.ok.inj hx
  exact h s hs

theorem triple_mapError {g : ε → ε} (h : Triple P m Q fun e s => E (g e) s) : Triple P (mapError g m) Q E := by
  intro s hs
  obtain ⟨hok, herror⟩ := h s hs
  simp only [mapError, on_of]
  rcases hout : (m.on s).1 with e | a
  · refine ⟨nofun, fun e' he => ?_⟩
    obtain rfl := Except.error.inj he
    exact herror e hout
  · refine ⟨fun b hb => ?_, nofun⟩
    obtain rfl := Except.ok.inj hb
    exact hok a hout

/-- **Loops.** The invariant may speak of the part of the list that is left. -/
theorem triple_forM {f : β → Prog σ ε PUnit} {I : List β → σ → Prop} (xs : List β)
    (h : ∀ x rest, Triple (I (x :: rest)) (f x) (fun _ => I rest) E) :
    Triple (I xs) (xs.forM f) (fun _ => I []) E := by
  induction xs with
  | nil => exact triple_pure fun s hs => hs
  | cons x rest ih =>
    rw [List.forM_eq_forM, List.forM_cons]
    exact triple_bind (h x rest) fun _ => ih

end Prog

end BookingSystem.Base
