import Mathlib.Logic.Basic

/-!
# Methods that throw

A method of an object either returns, or throws, or traps. The object keeps what the method has
done to it until it threw; a trap ends everything.

`Plain` is the same without an object. A method `Computes` a plain result if it returns, throws
and traps as that does, and leaves the object as it is said to: the rules are those for sequences,
for `defer` and for `do`/`catch`.
-/

namespace Wanderlust

namespace Throwing

/-- What can go wrong. -/
inductive Failure (E : Type*)
  | trap
  | throws (e : E)
  deriving DecidableEq

/-- What a function without side effects gives. -/
abbrev Plain (E α : Type*) := Except (Failure E) α

/-- What a method gives, with the object afterwards. -/
inductive Outcome (S E α : Type*)
  | trap
  | throws (e : E) (s : S)
  | returns (a : α) (s : S)

/-- The methods of an object with the state `S`. -/
def Method (S E α : Type*) := S → Outcome S E α

theorem Plain.bind_eq_ok {E α β : Type} {x : Plain E α} {f : α → Plain E β} {b : β} :
    (x >>= f) = .ok b ↔ ∃ a, x = .ok a ∧ f a = .ok b := by
  cases x with
  | ok a =>
    constructor
    · exact fun h => ⟨a, rfl, h⟩
    · rintro ⟨_, h, hf⟩
      cases h
      exact hf
  | error e =>
    constructor
    · exact fun h => nomatch h
    · exact fun ⟨_, h, _⟩ => nomatch h

/-- Either the first throws, or what comes next. -/
theorem Plain.of_bind_eq_error {E α β : Type} {x : Plain E α} {f : α → Plain E β}
    {e : Failure E} (h : (x >>= f) = .error e) :
    x = .error e ∨ ∃ a, x = .ok a ∧ f a = .error e := by
  cases x with
  | ok a => exact .inr ⟨a, rfl, h⟩
  | error _ =>
    cases h
    exact .inl rfl

namespace Method

variable {S E α β γ δ : Type}

instance : Monad (Method S E) where
  pure a s := .returns a s
  bind m f s := match m s with
    | .trap => .trap
    | .throws e s' => .throws e s'
    | .returns a s' => f a s'

/-- The object. -/
def get : Method S E S := fun s => .returns s s

/-- An assignment. -/
def modify (f : S → S) : Method S E Unit := fun s => .returns () (f s)

def trap : Method S E α := fun _ => .trap

def throw (e : E) : Method S E α := fun s => .throws e s

/-- A method whose `defer` block assigns `f`. -/
def deferring (f : S → S) (m : Method S E α) : Method S E α := fun s =>
  match m s with
  | .trap => .trap
  | .throws e s' => .throws e (f s')
  | .returns a s' => .returns a (f s')

/-- A method in a `do`, whose `catch` assigns `f` and throws the error again. -/
def rescuing (f : S → S) (m : Method S E α) : Method S E α := fun s =>
  match m s with
  | .trap => .trap
  | .throws e s' => .throws e (f s')
  | .returns a s' => .returns a s'

/-- From `s` the method gives what `x` is: if that is a value `b` then it returns and leaves what
`out b` says, and if that is an error then it leaves something with `left`. -/
def Computes (m : Method S E α) (s : S) (x : Plain E β) (out : β → α × S) (left : S → Prop) :
    Prop :=
  match x with
  | .ok b => m s = .returns (out b).1 (out b).2
  | .error .trap => m s = .trap
  | .error (.throws e) => ∃ s', m s = .throws e s' ∧ left s'

section

variable {m : Method S E α} {s : S} {x : Plain E β} {out : β → α × S} {left : S → Prop}

theorem Computes.mono (left' : S → Prop) (h : Computes m s x out left)
    (hleft : ∀ s', left s' → left' s') : Computes m s x out left' := by
  match x, h with
  | .ok _, h => exact h
  | .error .trap, h => exact h
  | .error (.throws _), ⟨s', h, hl⟩ => exact ⟨s', h, hleft s' hl⟩

theorem computes_pure {a : α} {b : β} (h : out b = (a, s)) :
    Computes (pure a : Method S E α) s (.ok b) out left := by
  change Outcome.returns a s = .returns (out b).1 (out b).2
  rw [h]

theorem computes_trap : Computes (trap : Method S E α) s (.error .trap : Plain E β) out left := rfl

theorem computes_throw {e : E} (h : left s) :
    Computes (throw e : Method S E α) s (.error (.throws e) : Plain E β) out left :=
  ⟨s, rfl, h⟩

theorem Computes.bind {f : α → Method S E γ} {y : β → Plain E δ} {out' : δ → γ × S}
    (h : Computes m s x out left)
    (hf : ∀ b, x = .ok b → Computes (f (out b).1) (out b).2 (y b) out' left) :
    Computes (m >>= f) s (x >>= y) out' left := by
  have hbind : (m >>= f) s = match m s with
    | .trap => .trap
    | .throws e s' => .throws e s'
    | .returns a s' => f a s' := rfl
  match x, h, hf with
  | .ok b, h, hf =>
    have h' : (m >>= f) s = f (out b).1 (out b).2 := by rw [hbind, show m s = _ from h]
    have := hf b rfl
    simp only [Computes, h'] at this ⊢
    exact this
  | .error .trap, h, _ =>
    change (m >>= f) s = .trap
    rw [hbind, show m s = _ from h]
  | .error (.throws e), ⟨s', h, hl⟩, _ =>
    refine ⟨s', ?_, hl⟩
    rw [hbind, h]

/-- An assignment first. -/
theorem computes_modify_bind {f : S → S} {g : Unit → Method S E α}
    (h : Computes (g ()) (f s) x out left) : Computes (modify f >>= g) s x out left := h

/-- Reading the object first. -/
theorem computes_get_bind {g : S → Method S E α} (h : Computes (g s) s x out left) :
    Computes (get >>= g) s x out left := h

theorem Computes.deferring {f : S → S} (left' : S → Prop) (h : Computes m s x out left)
    (hleft : ∀ s', left s' → left' (f s')) :
    Computes (m.deferring f) s x (fun b => ((out b).1, f (out b).2)) left' := by
  match x, h with
  | .ok b, h => simp only [Computes, Method.deferring, show m s = _ from h]
  | .error .trap, h => simp only [Computes, Method.deferring, show m s = _ from h]
  | .error (.throws e), ⟨s', h, hl⟩ =>
    exact ⟨f s', by simp only [Method.deferring, h], hleft s' hl⟩

theorem Computes.rescuing {f : S → S} (left' : S → Prop) (h : Computes m s x out left)
    (hleft : ∀ s', left s' → left' (f s')) : Computes (m.rescuing f) s x out left' := by
  match x, h with
  | .ok b, h => simp only [Computes, Method.rescuing, show m s = _ from h]
  | .error .trap, h => simp only [Computes, Method.rescuing, show m s = _ from h]
  | .error (.throws e), ⟨s', h, hl⟩ =>
    exact ⟨f s', by simp only [Method.rescuing, h], hleft s' hl⟩

/-- What is done next always returns. -/
theorem Computes.bind_returns {f : α → Method S E γ} (out' : β → γ × S)
    (h : Computes m s x out left)
    (hf : ∀ b, x = .ok b → f (out b).1 (out b).2 = .returns (out' b).1 (out' b).2) :
    Computes (m >>= f) s x out' left := by
  have hx : (x >>= fun b => .ok b) = x := by cases x <;> rfl
  have : Computes (m >>= f) s (x >>= fun b => .ok b) out' left := h.bind hf
  rwa [hx] at this

/-- What is done first returns. -/
theorem bind_of_returns {a : γ} {m : Method S E γ} {f : γ → Method S E α} {s' : S}
    (h : m s = .returns a s') : (m >>= f) s = f a s' := by
  change (match m s with
    | .trap => .trap
    | .throws e s' => .throws e s'
    | .returns a s' => f a s' : Outcome S E α) = _
  rw [h]

theorem computes_bind_of_returns {a : γ} {m : Method S E γ} {f : γ → Method S E α} {s' : S}
    (h : m s = .returns a s') (hf : Computes (f a) s' x out left) :
    Computes (m >>= f) s x out left := by
  simp only [Computes, bind_of_returns h]
  exact hf

end

end Method

end Throwing

end Wanderlust
