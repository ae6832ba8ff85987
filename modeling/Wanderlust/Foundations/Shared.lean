import Mathlib.Logic.Function.Basic
import Wanderlust.Foundations.Async

/-!
# Several clients of one store

Clients with the same code, each with a queue of writes of its own, on one store: the writes of
one client take effect in their order, and those of different clients in any order in between. A
client sees the store with its own writes, and not those that the others have not sent yet.

The queue of a client matters here, since what is in it reaches the store between the writes of
others; `step_cases` says what a step does to it.
-/

namespace Wanderlust.Async

/-- A client of a store. -/
structure Client (L W K : Type*) where
  loc : L
  queue : List (W × Option K)
  ready : List (K × Option Bool)

/-- A store with its clients. -/
structure Shared (ι S L W K : Type*) where
  store : S
  client : ι → Client L W K

section

variable {ι S L W K : Type*} [DecidableEq ι]

/-- The store with one of the clients. -/
def Shared.state (n : Shared ι S L W K) (i : ι) : State S L W K :=
  ⟨n.store, (n.client i).loc, (n.client i).queue, (n.client i).ready⟩

/-- The state of one of the clients, with the store, is replaced. -/
def Shared.put (n : Shared ι S L W K) (i : ι) (st : State S L W K) : Shared ι S L W K :=
  ⟨st.store, Function.update n.client i ⟨st.loc, st.queue, st.ready⟩⟩

variable {n : Shared ι S L W K} {i j : ι} {st : State S L W K}

@[simp] theorem state_put_self : (n.put i st).state i = st := by
  simp [Shared.state, Shared.put]

theorem state_put_ne (h : j ≠ i) :
    (n.put i st).state j = { n.state j with store := st.store } := by
  simp [Shared.state, Shared.put, h]

end

section

variable {S L W K A E : Type*} {P : Program S L W K A E} {st st' : State S L W K}

/-- The writes among commands, as they are put into the queue. -/
def writes : List (Cmd W K) → List (W × Option K)
  | [] => []
  | .write w k :: cs => (w, k) :: writes cs
  | .request _ :: cs => writes cs

/-- The requests among commands, as they can be answered. -/
def requests : List (Cmd W K) → List (K × Option Bool)
  | [] => []
  | .write _ _ :: cs => requests cs
  | .request k :: cs => (k, none) :: requests cs

theorem mem_writes {cs : List (Cmd W K)} {w : W} {k : Option K} :
    (w, k) ∈ writes cs ↔ Cmd.write w k ∈ cs := by
  induction cs with
  | nil => simp [writes]
  | cons c cs ih => cases c <;> simp [writes, ih]

theorem writes_append (cs cs' : List (Cmd W K)) : writes (cs ++ cs') = writes cs ++ writes cs' := by
  induction cs with
  | nil => rfl
  | cons c cs ih => cases c <;> simp [writes, ih]

theorem mem_requests {cs : List (Cmd W K)} {x : K × Option Bool} (h : x ∈ requests cs) :
    Cmd.request x.1 ∈ cs := by
  induction cs with
  | nil => cases h
  | cons c cs ih =>
    cases c with
    | write w k => exact List.mem_cons_of_mem _ (ih h)
    | request k =>
      rcases List.mem_cons.mp h with rfl | h
      · exact List.mem_cons_self
      · exact List.mem_cons_of_mem _ (ih h)

@[simp] theorem writes_map_request {α : Type*} (f : α → K) (xs : List α) :
    writes (xs.map fun x => (Cmd.request (f x) : Cmd W K)) = [] := by
  induction xs with
  | nil => rfl
  | cons x xs ih => exact ih

@[simp] theorem requests_map_request {α : Type*} (f : α → K) (xs : List α) :
    requests (xs.map fun x => (Cmd.request (f x) : Cmd W K)) = xs.map fun x => (f x, none) := by
  induction xs with
  | nil => rfl
  | cons x xs ih => exact congrArg ((f x, none) :: ·) ih

/-- Issuing commands. -/
theorem issue_eq (st : State S L W K) (cs : List (Cmd W K)) :
    st.issue cs =
      { st with queue := st.queue ++ writes cs, ready := st.ready ++ requests cs } := by
  induction cs generalizing st with
  | nil => simp [State.issue, writes, requests]
  | cons c cs ih => cases c <;> simp [State.issue, writes, requests, ih]

/-- **What a step does**: code runs, for an action of the user or for an answer, and its writes
are put at the end of the queue; or the first write in the queue leaves it. -/
theorem step_cases {lbl : Label A E} (h : P.step lbl st = some st') :
    (∃ e r, lbl = .event e ∧ P.event e st.loc (P.view st) = some r ∧
      st' = ⟨st.store, r.1, st.queue ++ writes r.2, st.ready ++ requests r.2⟩) ∨
    (∃ i ok a k o r, lbl = .deliver i ok a ∧ st.ready[i]? = some (k, o) ∧
      P.react k ok a st.loc (P.view st) = some r ∧
      st' = ⟨st.store, r.1, st.queue ++ writes r.2, st.ready.eraseIdx i ++ requests r.2⟩) ∨
    (∃ w k q, lbl = .apply ∧ st.queue = (w, k) :: q ∧
      st' = ⟨P.apply w st.store, st.loc, q, st.ready ++ k.toList.map fun k => (k, some true)⟩) ∨
    ∃ w k q, lbl = .reject ∧ st.queue = (w, k) :: q ∧
      st' = ⟨st.store, st.loc, q, st.ready ++ k.toList.map fun k => (k, some false)⟩ := by
  cases lbl with
  | event e =>
    obtain ⟨r, hr, rfl⟩ := Option.map_eq_some_iff.mp h
    exact Or.inl ⟨e, r, rfl, hr, issue_eq _ _⟩
  | deliver i ok a =>
    simp only [Program.step] at h
    split at h
    · cases h
    · rename_i k o hi
      split at h
      · obtain ⟨r, hr, rfl⟩ := Option.map_eq_some_iff.mp h
        exact Or.inr (Or.inl ⟨i, ok, a, k, o, r, rfl, hi, hr, issue_eq _ _⟩)
      · cases h
  | apply =>
    simp only [Program.step] at h
    split at h <;> cases h
    rename_i w k q hq
    exact Or.inr (Or.inr (Or.inl ⟨w, k, q, rfl, hq, rfl⟩))
  | reject =>
    simp only [Program.step] at h
    split at h <;> cases h
    rename_i w k q hq
    exact Or.inr (Or.inr (Or.inr ⟨w, k, q, rfl, hq, rfl⟩))

end

end Wanderlust.Async
