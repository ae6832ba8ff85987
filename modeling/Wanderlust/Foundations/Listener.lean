import Wanderlust.Foundations.Async

/-!
# A client that listens to the store

A client often keeps a copy of a document, which a listener refreshes: the document is read, and
what has been read replaces the copy later, after any delay. `Program.listening` is the program of
a client with such a listener; a step of it is a step of the client, a read or a replacement
(`ListeningStep`).
-/

namespace Wanderlust.Async

/-- A command with other callbacks. -/
def Cmd.map {W K K' : Type*} (f : K → K') : Cmd W K → Cmd W K'
  | .write w k => .write w (k.map f)
  | .request k => .request (f k)

@[simp] theorem effect_map {S W K K' : Type*} (apply : W → S → S) (f : K → K')
    (cs : List (Cmd W K)) (s : S) : effect apply (cs.map (Cmd.map f)) s = effect apply cs s := by
  induction cs generalizing s with
  | nil => rfl
  | cons c cs ih =>
    cases c with
    | write w k => exact ih (apply w s)
    | request k => exact ih s

@[simp] theorem callbacks_map {W K K' : Type*} (f : K → K') (cs : List (Cmd W K)) :
    callbacks (cs.map (Cmd.map f)) = (callbacks cs).map f := by
  have hmap : (cs.map (Cmd.map f)).filterMap Cmd.callback =
      (cs.filterMap Cmd.callback).map f := by
    induction cs with
    | nil => rfl
    | cons c cs ih =>
      rcases c with ⟨w, _ | k⟩ | k
      · exact ih
      · exact congrArg (f k :: ·) ih
      · exact congrArg (f k :: ·) ih
  exact congrArg Multiset.ofList hmap

/-- A callback of the client, or of the listener, which has read `u`. -/
inductive Heard (U K : Type*)
  | callback (k : K)
  | snapshot (u : U)
  deriving DecidableEq

/-- An action of the user, or the listener reads. -/
inductive Hearing (E : Type*)
  | event (e : E)
  | snapshot

variable {S L W K A E U : Type*}

/-- The results of running the client's code, with its callbacks as those of the listening
client. -/
def heard (r : L × List (Cmd W K)) : L × List (Cmd W (Heard U K)) :=
  (r.1, r.2.map (Cmd.map .callback))

/-- The program `P` with a listener that reads by `fetch` and refreshes the copy by `refresh`,
which can trap. -/
def Program.listening (P : Program S L W K A E) (fetch : L → S → U) (refresh : U → L → Option L) :
    Program S L W (Heard U K) A (Hearing E) where
  apply := P.apply
  react
    | .callback k, ok, a, l, s => (P.react k ok a l s).map heard
    | .snapshot u, ok, _, l, _ => (if ok then refresh u l else some l).map fun l => (l, [])
  event
    | .event e, l, s => (P.event e l s).map heard
    | .snapshot, l, s => some (l, [.request (.snapshot (fetch l s))])

section

variable {P : Program S L W K A E} {fetch : L → S → U} {refresh : U → L → Option L}

@[simp] theorem effect_heard (apply : W → S → S) (r : L × List (Cmd W K)) (s : S) :
    effect apply (heard r : L × List (Cmd W (Heard U K))).2 s = effect apply r.2 s :=
  effect_map apply _ r.2 s

@[simp] theorem callbacks_heard (r : L × List (Cmd W K)) :
    callbacks (heard r : L × List (Cmd W (Heard U K))).2 = (callbacks r.2).map .callback :=
  callbacks_map _ r.2

/-- What a step of the listening client is to the client. -/
inductive ListeningStep (P : Program S L W K A E) (fetch : L → S → U)
    (refresh : U → L → Option L) (x : Direct S L (Heard U K)) :
    Move (Heard U K) A (Hearing E) → Direct S L (Heard U K) → Prop
  | event {e : E} {r : L × List (Cmd W K)} (he : P.event e x.loc x.store = some r) :
      ListeningStep P fetch refresh x (.event (.event e))
        ⟨effect P.apply r.2 x.store, r.1, x.bag + (callbacks r.2).map .callback⟩
  | read : ListeningStep P fetch refresh x (.event .snapshot)
      ⟨x.store, x.loc, .snapshot (fetch x.loc x.store) ::ₘ x.bag⟩
  | deliver {k : K} {ok : Bool} {a : A} {rest : Multiset (Heard U K)} {r : L × List (Cmd W K)}
      (hb : x.bag = .callback k ::ₘ rest) (hr : P.react k ok a x.loc x.store = some r) :
      ListeningStep P fetch refresh x (.deliver (.callback k) ok a)
        ⟨effect P.apply r.2 x.store, r.1, rest + (callbacks r.2).map .callback⟩
  | refresh {u : U} {ok : Bool} {a : A} {rest : Multiset (Heard U K)} {l : L}
      (hb : x.bag = .snapshot u ::ₘ rest)
      (hl : (if ok then refresh u x.loc else some x.loc) = some l) :
      ListeningStep P fetch refresh x (.deliver (.snapshot u) ok a) ⟨x.store, l, rest⟩

/-- **What a step does.** -/
theorem listening_step {x x' : Direct S L (Heard U K)} {m : Move (Heard U K) A (Hearing E)}
    (h : DirectStep (P.listening fetch refresh) x m x') :
    ListeningStep P fetch refresh x m x' := by
  cases h with
  | @event e r he =>
    cases e with
    | event e =>
      obtain ⟨r₀, he₀, rfl⟩ := Option.map_eq_some_iff.mp he
      have hstep : ListeningStep P fetch refresh x _ _ := .event he₀
      rw [← callbacks_heard, ← effect_heard (U := U)] at hstep
      exact hstep
    | snapshot =>
      cases he
      have hafter : (P.listening fetch refresh).after
          (x.loc, [.request (.snapshot (fetch x.loc x.store))]) x =
            ⟨x.store, x.loc, .snapshot (fetch x.loc x.store) ::ₘ x.bag⟩ := by
        simp only [Program.after, effect_request, effect_nil, callbacks_request, callbacks_nil,
          Multiset.add_cons, add_zero]
      rw [hafter]
      exact .read
  | @deliver k ok a rest r hb hr =>
    cases k with
    | callback k =>
      obtain ⟨r₀, hr₀, rfl⟩ := Option.map_eq_some_iff.mp hr
      have hstep : ListeningStep P fetch refresh x _ _ := .deliver hb hr₀
      rw [← callbacks_heard, ← effect_heard (U := U)] at hstep
      exact hstep
    | snapshot u =>
      obtain ⟨l, hl, rfl⟩ := Option.map_eq_some_iff.mp hr
      have hafter : (P.listening fetch refresh).after (l, []) { x with bag := rest } =
          ⟨x.store, l, rest⟩ := by
        simp [Program.after]
      rw [hafter]
      exact .refresh hb hl

end

end Wanderlust.Async
