import Wanderlust.Foundations.Listener

/-!
# Answers on their way

Between a request and the code that its answer runs, two things happen: the answer is read from the
store, and it is delivered. `Program.answering` is the program of a client for which any time can
pass between the two, so that the code can run with an answer that is no longer true. A step of it
is an action of the user, the reading of an answer, or the code that runs with an answer that has
been read before (`answering_event`, `answering_react`).
-/

namespace Wanderlust.Async

/-- A callback whose answer has not been read yet, or has been read from the store `s`. -/
inductive Answering (S K : Type*)
  | asked (k : K)
  | answered (k : K) (ok : Bool) (s : S)

variable {S L W K A E : Type*}

/-- The results of running the client's code, with its callbacks as those of requests that are not
answered yet. -/
def asking (r : L × List (Cmd W K)) : L × List (Cmd W (Answering S K)) :=
  (r.1, r.2.map (Cmd.map .asked))

/-- The program `P` for answers that are read at one time and delivered at another. -/
def Program.answering (P : Program S L W K A E) : Program S L W (Answering S K) A E where
  apply := P.apply
  react
    | .asked k, ok, _, l, s => some (l, [.request (.answered k ok s)])
    | .answered k ok s, _, a, l, _ => (P.react k ok a l s).map asking
  event e l s := (P.event e l s).map asking

section

variable {P : Program S L W K A E} {l : L} {s : S} {r : L × List (Cmd W (Answering S K))}

@[simp] theorem effect_asking (apply : W → S → S) (r : L × List (Cmd W K)) (s : S) :
    effect apply (asking r : L × List (Cmd W (Answering S K))).2 s = effect apply r.2 s :=
  effect_map apply _ r.2 s

@[simp] theorem callbacks_asking (r : L × List (Cmd W K)) :
    callbacks (asking r : L × List (Cmd W (Answering S K))).2 = (callbacks r.2).map .asked :=
  callbacks_map _ r.2

/-- What an action of the user is to the client. -/
theorem answering_event {e : E} (h : P.answering.event e l s = some r) :
    ∃ r₀, P.event e l s = some r₀ ∧ r = asking r₀ := by
  obtain ⟨r₀, h₀, rfl⟩ := Option.map_eq_some_iff.mp h
  exact ⟨r₀, h₀, rfl⟩

/-- **What a callback does**: its answer is read, or its code runs with the answer. -/
theorem answering_react {k : Answering S K} {ok : Bool} {a : A}
    (h : P.answering.react k ok a l s = some r) :
    (∃ k₀, k = .asked k₀ ∧ r = (l, [.request (.answered k₀ ok s)])) ∨
      ∃ k₀ ok₀ s₀ r₀, k = .answered k₀ ok₀ s₀ ∧ P.react k₀ ok₀ a l s₀ = some r₀ ∧
        r = asking r₀ := by
  cases k with
  | asked k =>
    cases h
    exact Or.inl ⟨k, rfl, rfl⟩
  | answered k ok₀ s₀ =>
    obtain ⟨r₀, h₀, rfl⟩ := Option.map_eq_some_iff.mp h
    exact Or.inr ⟨k, ok₀, s₀, r₀, rfl, h₀, rfl⟩

end

end Wanderlust.Async
