import Mathlib.Algebra.Order.Group.Multiset
import Mathlib.Tactic.Abel

/-!
# Clients of an asynchronous store

A client of a remote store runs one callback at a time to its end. While it runs, a callback
reads what the store looks like to the client, changes the client's own state, and issues
commands: writes to the store and requests (reads, uploads, ...), each with the callback that its
answer will run. The writes of a client take effect in the order in which they were issued, at
any later time; the answers arrive in any order, each once.

* `Program` is the code of a client, `State` what a run of it consists of, and `Program.step` one
  step of a run: the user does something, the oldest write takes effect (or is rejected), or one
  callback is delivered.
* `DirectStep` is the same client over a store whose writes take effect when they are issued.
  `direct_step` relates the two: what a client sees of a run without rejected writes (`direct`)
  is a run of the direct machine, so that an invariant of the direct machine holds in every state
  of every run (`Trace.invariant`, `Reaches.invariant`). This is the rule by which the programs
  are verified.
-/

namespace Wanderlust.Async

/-- A command: a write with the callback that its completion runs, if any, or a request for an
answer that the callback will be given. -/
inductive Cmd (W K : Type*)
  | write (w : W) (k : Option K)
  | request (k : K)
  deriving DecidableEq

/-- The callback of a command. -/
def Cmd.callback {W K : Type*} : Cmd W K → Option K
  | .write _ k => k
  | .request k => some k

/-- Code that runs to its end on the client state and issues commands. -/
abbrev Handler (L W K : Type*) := L → L × List (Cmd W K)

namespace Handler

variable {L W K α : Type*}

/-- Do nothing. -/
def skip : Handler L W K := fun l => (l, [])

/-- Change the client state. -/
def modify (f : L → L) : Handler L W K := fun l => (f l, [])

/-- Issue commands computed from the client state. -/
def issue (f : L → List (Cmd W K)) : Handler L W K := fun l => (l, f l)

/-- One after the other. -/
def andThen (f g : Handler L W K) : Handler L W K := fun l =>
  ((g (f l).1).1, (f l).2 ++ (g (f l).1).2)

/-- A `for` loop over a list. -/
def forEach (f : α → Handler L W K) : List α → Handler L W K
  | [] => skip
  | x :: xs => (f x).andThen (forEach f xs)

@[simp] theorem skip_apply (l : L) : (skip : Handler L W K) l = (l, []) := rfl

@[simp] theorem modify_apply (f : L → L) (l : L) :
    (modify f : Handler L W K) l = (f l, []) := rfl

@[simp] theorem issue_apply (f : L → List (Cmd W K)) (l : L) : issue f l = (l, f l) := rfl

@[simp] theorem andThen_apply (f g : Handler L W K) (l : L) :
    f.andThen g l = ((g (f l).1).1, (f l).2 ++ (g (f l).1).2) := rfl

@[simp] theorem forEach_nil (f : α → Handler L W K) : forEach f [] = skip := rfl

@[simp] theorem forEach_cons (f : α → Handler L W K) (x : α) (xs : List α) :
    forEach f (x :: xs) = (f x).andThen (forEach f xs) := rfl

/-- What every pass of a loop keeps of the client state, the loop keeps. -/
theorem forEach_fst {I : L → Prop} {f : α → Handler L W K} {xs : List α}
    (h : ∀ x ∈ xs, ∀ l, I l → I (f x l).1) {l : L} (hl : I l) : I (forEach f xs l).1 := by
  induction xs generalizing l with
  | nil => exact hl
  | cons x xs ih =>
    exact ih (fun y hy => h y (List.mem_cons_of_mem _ hy)) (h x List.mem_cons_self l hl)

end Handler

/-- The code of a client: how its writes act on the store, what a callback does with its answer
(`ok` says whether the answer is a success, `a` is what it carries; `none` is a trap), and what a
user's action does (`none` when the user cannot do it). Both read the store as the client sees
it. -/
structure Program (S L W K A E : Type*) where
  apply : W → S → S
  react : K → Bool → A → L → S → Option (L × List (Cmd W K))
  event : E → L → S → Option (L × List (Cmd W K))

/-- A state of a run: the store, the client, the writes issued and not yet in effect (oldest
first), and the callbacks that can be delivered, with their outcome where it is settled. -/
structure State (S L W K : Type*) where
  store : S
  loc : L
  queue : List (W × Option K)
  ready : List (K × Option Bool)

/-- The steps of a run. -/
inductive Label (A E : Type*)
  | event (e : E)
  | apply
  | reject
  | deliver (i : ℕ) (ok : Bool) (a : A)

/-- What a step is to the client: an action of the user or the delivery of a callback. -/
inductive Move (K A E : Type*)
  | event (e : E)
  | deliver (k : K) (ok : Bool) (a : A)

/-- The user's action, if the step is one. -/
def Move.event? {K A E : Type*} : Move K A E → Option E
  | .event e => some e
  | .deliver .. => none

variable {S L W K A E : Type*} (P : Program S L W K A E)

/-- What a step is to the client; a write that leaves the queue is nothing. -/
def State.move (st : State S L W K) : Label A E → Option (Move K A E)
  | .event e => some (.event e)
  | .apply => none
  | .reject => none
  | .deliver i ok a => st.ready[i]?.map fun x => .deliver x.1 ok a

/-- The store with the effect of the writes among the commands. -/
def effect (apply : W → S → S) : List (Cmd W K) → S → S
  | [], s => s
  | .write w _ :: cs, s => effect apply cs (apply w s)
  | .request _ :: cs, s => effect apply cs s

/-- The callbacks of the commands. -/
def callbacks (cs : List (Cmd W K)) : Multiset K := ↑(cs.filterMap Cmd.callback)

/-- The store as the client sees it: with all of its writes. -/
def Program.view (st : State S L W K) : S := st.queue.foldl (fun s w => P.apply w.1 s) st.store

/-- Put commands on their way. -/
def State.issue (st : State S L W K) : List (Cmd W K) → State S L W K
  | [] => st
  | .write w k :: cs => State.issue { st with queue := st.queue ++ [(w, k)] } cs
  | .request k :: cs => State.issue { st with ready := st.ready ++ [(k, none)] } cs

/-- One step of a run. -/
def Program.step : Label A E → State S L W K → Option (State S L W K)
  | .event e, st => (P.event e st.loc (P.view st)).map fun r => { st with loc := r.1 }.issue r.2
  | .apply, st =>
    match st.queue with
    | [] => none
    | (w, k) :: q => some
      { st with
        store := P.apply w st.store
        queue := q
        ready := st.ready ++ k.toList.map fun k => (k, some true) }
  | .reject, st =>
    match st.queue with
    | [] => none
    | (_, k) :: q => some
      { st with queue := q, ready := st.ready ++ k.toList.map fun k => (k, some false) }
  | .deliver i ok a, st =>
    match st.ready[i]? with
    | none => none
    | some (k, o) =>
      if o = none ∨ o = some ok then
        (P.react k ok a st.loc (P.view st)).map fun r =>
          { st with loc := r.1, ready := st.ready.eraseIdx i }.issue r.2
      else none

/-- Whether a step is one of those considered: the actions and deliveries that `allowed` permits
in the state as the client sees it, and the writes taking effect. -/
def Permits (allowed : L → S → Move K A E → Prop) (st : State S L W K) : Label A E → Prop
  | .event e => allowed st.loc (P.view st) (.event e)
  | .apply => True
  | .reject => False
  | .deliver i ok a =>
    match st.ready[i]? with
    | none => False
    | some (k, _) => allowed st.loc (P.view st) (.deliver k ok a)

instance (allowed : L → S → Move K A E → Prop) [∀ l s m, Decidable (allowed l s m)]
    (st : State S L W K) : DecidablePred (Permits P allowed st)
  | .event e => inferInstanceAs (Decidable (allowed _ _ (.event e)))
  | .apply => inferInstanceAs (Decidable True)
  | .reject => inferInstanceAs (Decidable False)
  | .deliver i ok a =>
    match h : st.ready[i]? with
    | none => decidable_of_iff False (by simp [Permits, h])
    | some (k, _) => decidable_of_iff (allowed st.loc (P.view st) (.deliver k ok a))
        (by simp [Permits, h])

/-- Permitted steps, one after the other. -/
inductive Trace (allowed : L → S → Move K A E → Prop) :
    State S L W K → List (Label A E) → State S L W K → Prop
  | nil (st : State S L W K) : Trace allowed st [] st
  | cons {st st₁ st' : State S L W K} {lbl : Label A E} {lbls : List (Label A E)}
      (hp : Permits P allowed st lbl) (hs : P.step lbl st = some st₁)
      (h : Trace allowed st₁ lbls st') : Trace allowed st (lbl :: lbls) st'

/-- The states that permitted steps lead to. -/
def Reaches (allowed : L → S → Move K A E → Prop) (st st' : State S L W K) : Prop :=
  ∃ lbls, Trace P allowed st lbls st'

/-- What the user did in a run. -/
def events (lbls : List (Label A E)) : List E :=
  lbls.filterMap fun
    | .event e => some e
    | _ => none

/-- Run a list of permitted steps. -/
def exec (allowed : L → S → Move K A E → Prop) [∀ l s m, Decidable (allowed l s m)] :
    List (Label A E) → State S L W K → Option (State S L W K)
  | [], st => some st
  | lbl :: lbls, st =>
    if Permits P allowed st lbl then (P.step lbl st).bind (exec allowed lbls) else none

/-- Nothing is on its way any more. -/
def Quiescent (st : State S L W K) : Prop := st.queue = [] ∧ st.ready = []

instance : DecidablePred (Quiescent : State S L W K → Prop) := fun st =>
  decidable_of_iff (st.queue.isEmpty ∧ st.ready.isEmpty) (by simp [Quiescent])

/-- A run that starts. -/
def start (s : S) (l : L) : State S L W K := ⟨s, l, [], []⟩

/-- Code is run. -/
def State.call (st : State S L W K) (h : Handler L W K) : State S L W K :=
  { st with loc := (h st.loc).1 }.issue (h st.loc).2

section

variable {P} {allowed : L → S → Move K A E → Prop} {st st' : State S L W K}

/-- A run that could be executed is a run. -/
theorem trace_of_exec [∀ l s m, Decidable (allowed l s m)] {lbls : List (Label A E)}
    (h : exec P allowed lbls st = some st') : Trace P allowed st lbls st' := by
  induction lbls generalizing st with
  | nil => cases h; exact .nil _
  | cons lbl lbls ih =>
    simp only [exec] at h
    split at h
    · rename_i hp
      obtain ⟨st₁, hst₁, h⟩ := Option.bind_eq_some_iff.mp h
      exact .cons hp hst₁ (ih h)
    · cases h

/-- What is permitted does not matter to where a run leads. -/
theorem exec_unique {allowed' : L → S → Move K A E → Prop} [∀ l s m, Decidable (allowed l s m)]
    [∀ l s m, Decidable (allowed' l s m)] {lbls : List (Label A E)} {st₁ st₂ : State S L W K}
    (h₁ : exec P allowed lbls st = some st₁) (h₂ : exec P allowed' lbls st = some st₂) :
    st₁ = st₂ := by
  induction lbls generalizing st with
  | nil =>
    cases h₁
    cases h₂
    rfl
  | cons lbl lbls ih =>
    simp only [exec] at h₁ h₂
    split at h₁
    · split at h₂
      · obtain ⟨st₃, hst₃, h₁⟩ := Option.bind_eq_some_iff.mp h₁
        rw [hst₃, Option.bind_some] at h₂
        exact ih h₁ h₂
      · cases h₂
    · cases h₁

@[simp] theorem events_nil : events ([] : List (Label A E)) = [] := rfl

@[simp] theorem events_append (lbls lbls' : List (Label A E)) :
    events (lbls ++ lbls') = events lbls ++ events lbls' := List.filterMap_append

end

/-! ## Commands -/

section

variable {apply : W → S → S}

@[simp] theorem effect_nil (s : S) : effect apply ([] : List (Cmd W K)) s = s := rfl

@[simp] theorem effect_write (w : W) (k : Option K) (cs : List (Cmd W K)) (s : S) :
    effect apply (.write w k :: cs) s = effect apply cs (apply w s) := rfl

@[simp] theorem effect_request (k : K) (cs : List (Cmd W K)) (s : S) :
    effect apply (.request k :: cs) s = effect apply cs s := rfl

@[simp] theorem effect_append (cs cs' : List (Cmd W K)) (s : S) :
    effect apply (cs ++ cs') s = effect apply cs' (effect apply cs s) := by
  induction cs generalizing s with
  | nil => rfl
  | cons c cs ih => cases c <;> simp [ih]

@[simp] theorem effect_map_request {α : Type*} (f : α → K) (xs : List α) (s : S) :
    effect apply (xs.map fun x => Cmd.request (f x)) s = s := by
  induction xs generalizing s with
  | nil => rfl
  | cons x xs ih => simp [ih]

/-- What every write among the commands keeps, their effect keeps. -/
theorem effect_invariant {I : S → Prop} {cs : List (Cmd W K)}
    (h : ∀ w k, Cmd.write w k ∈ cs → ∀ s, I s → I (apply w s)) {s : S} (hs : I s) :
    I (effect apply cs s) := by
  induction cs generalizing s with
  | nil => exact hs
  | cons c cs ih =>
    have ih' := @ih fun w k hw => h w k (List.mem_cons_of_mem _ hw)
    cases c with
    | write w k => exact ih' (h w k List.mem_cons_self s hs)
    | request k => exact ih' hs

@[simp] theorem callbacks_nil : callbacks ([] : List (Cmd W K)) = 0 := rfl

@[simp] theorem callbacks_write (w : W) (cs : List (Cmd W K)) :
    callbacks (.write w none :: cs) = callbacks cs := rfl

@[simp] theorem callbacks_write_some (w : W) (k : K) (cs : List (Cmd W K)) :
    callbacks (.write w (some k) :: cs) = k ::ₘ callbacks cs := rfl

@[simp] theorem callbacks_request (k : K) (cs : List (Cmd W K)) :
    callbacks (.request k :: cs) = k ::ₘ callbacks cs := rfl

@[simp] theorem callbacks_append (cs cs' : List (Cmd W K)) :
    callbacks (cs ++ cs') = callbacks cs + callbacks cs' := by
  simp [callbacks]

theorem callbacks_map_write {α : Type*} (f : α → W) (xs : List α) :
    callbacks (xs.map fun x => (Cmd.write (f x) none : Cmd W K)) = 0 := by
  induction xs with
  | nil => rfl
  | cons x xs ih => simpa using ih

theorem callbacks_map_request {α : Type*} (f : α → K) (xs : List α) :
    callbacks (xs.map fun x => (Cmd.request (f x) : Cmd W K)) = (↑(xs.map f) : Multiset K) := by
  simp [callbacks, List.filterMap_map, Function.comp_def, Cmd.callback]

theorem mem_callbacks {k : K} {cs : List (Cmd W K)} :
    k ∈ callbacks cs ↔ ∃ c ∈ cs, c.callback = some k := by
  simp [callbacks]

end

/-! ## The direct machine -/

/-- The state of a client whose writes take effect at once: the store, the client, and the
callbacks on their way. -/
@[ext] structure Direct (S L K : Type*) where
  store : S
  loc : L
  bag : Multiset K

/-- The state of a run as the client sees it. -/
def Program.direct (st : State S L W K) : Direct S L K :=
  ⟨P.view st, st.loc, ↑(st.ready.map Prod.fst) + ↑(st.queue.filterMap Prod.snd)⟩

/-- What running code that ended in `r.1` and issued `r.2` does to a direct state. -/
def Program.after (r : L × List (Cmd W K)) (x : Direct S L K) : Direct S L K :=
  ⟨effect P.apply r.2 x.store, r.1, x.bag + callbacks r.2⟩

/-- One step of the direct machine. -/
inductive DirectStep : Direct S L K → Move K A E → Direct S L K → Prop
  | event {x : Direct S L K} {e : E} {r : L × List (Cmd W K)}
      (he : P.event e x.loc x.store = some r) : DirectStep x (.event e) (P.after r x)
  | deliver {x : Direct S L K} {k : K} {ok : Bool} {a : A} {rest : Multiset K}
      {r : L × List (Cmd W K)} (hb : x.bag = k ::ₘ rest)
      (hr : P.react k ok a x.loc x.store = some r) :
      DirectStep x (.deliver k ok a) (P.after r { x with bag := rest })

section

variable {P} {allowed : L → S → Move K A E → Prop} {st st' : State S L W K}

@[simp] theorem loc_issue (st : State S L W K) (cs : List (Cmd W K)) :
    (st.issue cs).loc = st.loc := by
  induction cs generalizing st with
  | nil => rfl
  | cons c cs ih => cases c <;> simp [State.issue, ih]

/-- Issuing commands adds their effect and their callbacks. -/
theorem direct_issue (st : State S L W K) (cs : List (Cmd W K)) :
    P.direct (st.issue cs) = P.after (st.loc, cs) (P.direct st) := by
  induction cs generalizing st with
  | nil => simp [State.issue, Program.direct, Program.after]
  | cons c cs ih =>
    cases c with
    | write w k =>
      rw [State.issue, ih]
      cases k with
      | none => simp [Program.direct, Program.view, Program.after]
      | some k =>
        ext
        · simp [Program.view, Program.direct, Program.after]
        · rfl
        · simp only [Program.direct, Program.after, List.filterMap_append, List.filterMap_cons,
            List.filterMap_nil, ← Multiset.coe_add, Multiset.coe_singleton,
            callbacks_write_some, ← Multiset.singleton_add]
          simp only [add_assoc]
    | request k =>
      rw [State.issue, ih]
      ext
      · simp [Program.view, Program.direct, Program.after]
      · rfl
      · simp only [Program.direct, Program.after, List.map_append, List.map_cons, List.map_nil,
          ← Multiset.coe_add, Multiset.coe_singleton, callbacks_request,
          ← Multiset.singleton_add]
        abel

theorem direct_call (st : State S L W K) (h : Handler L W K) :
    P.direct (st.call h) = P.after (h st.loc) (P.direct st) := by
  rw [State.call, direct_issue]
  rfl

theorem after_andThen (f g : Handler L W K) (x : Direct S L K) (l : L) :
    P.after (f.andThen g l) x = P.after (g (f l).1) (P.after (f l) x) := by
  simp [Program.after, add_assoc]

/-- **The rule for loops**: an invariant that refers to the elements still to come. -/
theorem after_forEach {α : Type*} {I : List α → Direct S L K → Prop} {f : α → Handler L W K}
    (h : ∀ a as x, I (a :: as) x → I as (P.after (f a x.loc) x)) {as : List α}
    {x : Direct S L K} (hx : I as x) : I [] (P.after (Handler.forEach f as x.loc) x) := by
  induction as generalizing x with
  | nil => simpa [Program.after] using hx
  | cons a as ih =>
    rw [Handler.forEach_cons, after_andThen]
    exact ih (h a as x hx)

/-- A write taking effect changes nothing for the client. -/
theorem direct_apply (h : P.step .apply st = some st') : P.direct st' = P.direct st := by
  rcases hq : st.queue with _ | ⟨⟨w, k⟩, q⟩
  · simp [Program.step, hq] at h
  · simp only [Program.step, hq, Option.some.injEq] at h
    subst h
    ext
    · simp [Program.direct, Program.view, hq]
    · rfl
    · cases k with
      | none => simp [Program.direct, hq]
      | some k =>
        simp only [Program.direct, hq, Option.toList_some, List.map_cons, List.map_nil,
          List.map_append, List.filterMap_cons, ← Multiset.coe_add,
          ← Multiset.cons_coe, ← Multiset.singleton_add]
        abel

/-- **The simulation.** A step is nothing to the client, but for what it sees of the store if a
write is rejected, or a step of the direct machine. -/
theorem step_move {lbl : Label A E} (h : P.step lbl st = some st') :
    (st.move lbl = none ∧ (lbl = .reject ∨ P.direct st' = P.direct st) ∧
        ∃ s, P.direct st' = { P.direct st with store := s }) ∨
      ∃ m, st.move lbl = some m ∧ DirectStep P (P.direct st) m (P.direct st') := by
  cases lbl with
  | event e =>
    obtain ⟨r, he, rfl⟩ := Option.map_eq_some_iff.mp h
    refine Or.inr ⟨.event e, rfl, ?_⟩
    rw [direct_issue]
    exact DirectStep.event (x := P.direct st) he
  | apply =>
    have hd := direct_apply h
    exact Or.inl ⟨rfl, Or.inr hd, (P.direct st).store, hd⟩
  | reject =>
    rcases hq : st.queue with _ | ⟨⟨w, k⟩, q⟩
    · simp [Program.step, hq] at h
    · simp only [Program.step, hq, Option.some.injEq] at h
      have happ : P.step .apply st = some ⟨P.apply w st.store, st.loc, q,
          st.ready ++ k.toList.map fun k => (k, some true)⟩ := by
        simp [Program.step, hq]
      have hbag := congrArg Direct.bag (direct_apply happ)
      subst h
      refine Or.inl ⟨rfl, Or.inl rfl, _, Direct.ext rfl rfl ?_⟩
      rw [← hbag]
      cases k <;> simp [Program.direct]
  | deliver i ok a =>
    rcases hi : st.ready[i]? with _ | ⟨k, o⟩
    · simp [Program.step, hi] at h
    · simp only [Program.step, hi] at h
      split at h
      · obtain ⟨r, hr, rfl⟩ := Option.map_eq_some_iff.mp h
        refine Or.inr ⟨.deliver k ok a, by simp [State.move, hi], ?_⟩
        have hb : (P.direct st).bag = k ::ₘ
            (↑((st.ready.eraseIdx i).map Prod.fst) + ↑(st.queue.filterMap Prod.snd)) := by
          obtain ⟨hlt, hget⟩ := List.getElem?_eq_some_iff.mp hi
          have hperm : st.ready.Perm ((k, o) :: st.ready.eraseIdx i) := by
            rw [← hget]
            exact (List.getElem_cons_eraseIdx_perm hlt).symm
          have := Multiset.coe_eq_coe.mpr (hperm.map Prod.fst)
          simp only [Program.direct, this, List.map_cons, ← Multiset.cons_coe, Multiset.cons_add]
        rw [direct_issue]
        exact DirectStep.deliver hb hr
      · cases h

/-- A permitted step of a run is nothing to the client, or a permitted step of the direct machine,
and the user's part in both is the same. -/
theorem direct_step {lbl : Label A E} (hp : Permits P allowed st lbl)
    (h : P.step lbl st = some st') :
    (P.direct st' = P.direct st ∧ events [lbl] = []) ∨
      ∃ m, allowed (P.direct st).loc (P.direct st).store m ∧
        DirectStep P (P.direct st) m (P.direct st') ∧ events [lbl] = m.event?.toList := by
  cases lbl with
  | event e =>
    obtain ⟨-, ⟨⟩, hd⟩ := (step_move h).resolve_left (by rintro ⟨⟨⟩, -⟩)
    exact Or.inr ⟨_, hp, hd, rfl⟩
  | apply => exact Or.inl ⟨direct_apply h, rfl⟩
  | reject => exact hp.elim
  | deliver i ok a =>
    rcases hi : st.ready[i]? with _ | ⟨k, o⟩
    · simp [Program.step, hi] at h
    · have hm : st.move (.deliver i ok a) = some (.deliver k ok a : Move K A E) := by
        simp [State.move, hi]
      obtain ⟨m, hm', hd⟩ := (step_move h).resolve_left (by simp [hm])
      obtain rfl := Option.some.inj (hm.symm.trans hm')
      simp only [Permits, hi] at hp
      exact Or.inr ⟨_, hp, hd, rfl⟩

/-- **The invariant rule**, for invariants that refer to what the user did so far: what the
permitted steps of the direct machine keep holds of what the client sees in every state of a
run. -/
theorem Trace.invariant {I : List E → Direct S L K → Prop}
    (hstep : ∀ es x m x', I es x → allowed x.loc x.store m → DirectStep P x m x' →
      I (es ++ m.event?.toList) x')
    {lbls : List (Label A E)} (h : Trace P allowed st lbls st') (es : List E)
    (hs : I es (P.direct st)) : I (es ++ events lbls) (P.direct st') := by
  induction h generalizing es with
  | nil => simpa using hs
  | @cons st st₁ st' lbl lbls hp hst _ ih =>
    have hcons : events (lbl :: lbls) = events [lbl] ++ events lbls := events_append [lbl] lbls
    rw [hcons, ← List.append_assoc]
    apply ih
    rcases direct_step hp hst with ⟨hd, he⟩ | ⟨m, ha, hd, he⟩
    · rwa [hd, he, List.append_nil]
    · rw [he]
      exact hstep _ _ _ _ hs ha hd

/-- The invariant rule for invariants of the state alone. -/
theorem Reaches.invariant {I : Direct S L K → Prop}
    (hstep : ∀ x m x', I x → allowed x.loc x.store m → DirectStep P x m x' → I x')
    (h : Reaches P allowed st st') (hs : I (P.direct st)) : I (P.direct st') := by
  obtain ⟨lbls, h⟩ := h
  exact h.invariant (I := fun _ => I) (fun _ => hstep) [] hs

theorem permits_iff_of_move {lbl : Label A E} {m : Move K A E} (h : st.move lbl = some m) :
    Permits P allowed st lbl ↔ allowed st.loc (P.view st) m := by
  cases lbl with
  | event e =>
    cases h
    exact Iff.rfl
  | apply => cases h
  | reject => cases h
  | deliver i ok a =>
    obtain ⟨x, hx, rfl⟩ := Option.map_eq_some_iff.mp h
    simp only [Permits, hx]

/-- **The rule for damage that lasts**: if a step that is not careful does damage, and what follows
does not repair it, then all steps of a run are careful or there is damage in the end. -/
theorem Trace.careful_or {careful : L → S → Move K A E → Prop} {I J : Direct S L K → Prop}
    (hstep : ∀ x m x', I x → allowed x.loc x.store m → DirectStep P x m x' → I x')
    (hkeep : ∀ x m x', I x → J x → allowed x.loc x.store m → DirectStep P x m x' → J x')
    (hdamage : ∀ x m x', I x → allowed x.loc x.store m → ¬ careful x.loc x.store m →
      DirectStep P x m x' → J x')
    {lbls : List (Label A E)} (h : Trace P allowed st lbls st') (hs : I (P.direct st)) :
    Trace P careful st lbls st' ∨ J (P.direct st') := by
  induction h with
  | nil => exact Or.inl (.nil _)
  | @cons st st₁ st' lbl lbls hp hst hrest ih =>
    rcases step_move hst with ⟨hmove, hsame, -⟩ | ⟨m, hmove, hd⟩
    · -- a write takes effect
      cases lbl with
      | event e => cases hmove
      | reject => exact hp.elim
      | apply =>
        have hdirect := direct_apply hst
        refine (ih (by rwa [hdirect])).imp (fun hcareful => ?_) id
        exact .cons (show Permits P careful st .apply from trivial) hst hcareful
      | deliver i ok a =>
        simp only [Permits] at hp
        simp only [State.move, Option.map_eq_none_iff] at hmove
        rw [hmove] at hp
        exact hp.elim
    · have ha := (permits_iff_of_move hmove).mp hp
      have hI := hstep _ _ _ hs ha hd
      by_cases hcareful : careful st.loc (P.view st) m
      · refine (ih hI).imp (fun htrace => ?_) id
        exact .cons ((permits_iff_of_move hmove).mpr hcareful) hst htrace
      · have hJ := hdamage _ _ _ hs ha hcareful hd
        have hlast : I (P.direct st') ∧ J (P.direct st') :=
          Reaches.invariant (I := fun x => I x ∧ J x)
            (fun x m x' hx ha hs => ⟨hstep x m x' hx.1 ha hs, hkeep x m x' hx.1 hx.2 ha hs⟩)
            ⟨lbls, hrest⟩ ⟨hI, hJ⟩
        exact Or.inr hlast.2

theorem Quiescent.direct (h : Quiescent st) : P.direct st = ⟨st.store, st.loc, 0⟩ := by
  simp [Program.direct, Program.view, h.1, h.2]

@[simp] theorem direct_start (s : S) (l : L) :
    P.direct (start s l) = (⟨s, l, 0⟩ : Direct S L K) := rfl

end

/-! ## Complete runs -/

/-- `Completes P allowed e s l s' l'`: from the store `s` and the client `l` with nothing on its
way, the user does `e`, and permitted steps lead to the store `s'` and the client `l'` with
nothing on its way any more. -/
def Completes (allowed : L → S → Move K A E → Prop) (e : E) (s : S) (l : L) (s' : S) (l' : L) :
    Prop :=
  ∃ st, P.step (.event e) (start s l) = some st ∧ Reaches P allowed st (start s' l')

section

variable {P} {allowed : L → S → Move K A E → Prop} {e : E} {s s' : S} {l l' : L}

/-- The invariant rule for complete runs: what holds after the user's action, and what the
permitted steps of the direct machine keep, holds when no callback is left. -/
theorem Completes.invariant {I : Direct S L K → Prop}
    (h : Completes P allowed e s l s' l')
    (hstart : ∀ r, P.event e l s = some r → I (P.after r ⟨s, l, 0⟩))
    (hstep : ∀ x m x', I x → allowed x.loc x.store m → DirectStep P x m x' → I x') :
    I ⟨s', l', 0⟩ := by
  obtain ⟨st, he, hr⟩ := h
  obtain ⟨r, he', rfl⟩ := Option.map_eq_some_iff.mp he
  have h₀ : I (P.direct ({ start s l with loc := r.1 }.issue r.2)) := by
    rw [direct_issue]
    exact hstart r he'
  exact hr.invariant hstep h₀

/-- A complete run from what the user's action leaves behind. -/
theorem completes_of_event {r : L × List (Cmd W K)} (he : P.event e l s = some r)
    (h : Reaches P allowed ({ start s l with loc := r.1 }.issue r.2) (start s' l')) :
    Completes P allowed e s l s' l' :=
  ⟨_, Option.map_eq_some_iff.mpr ⟨r, he, rfl⟩, h⟩

/-- Execute a complete run: the user does `e`, and then the steps of the list are taken. -/
def complete (P : Program S L W K A E) (allowed : L → S → Move K A E → Prop)
    [∀ l s m, Decidable (allowed l s m)] (e : E) (lbls : List (Label A E)) (s : S) (l : L) :
    Option (S × L) :=
  ((P.step (.event e) (start s l)).bind (exec P allowed lbls)).bind fun st =>
    if Quiescent st then some (st.store, st.loc) else none

/-- A complete run that could be executed. -/
theorem completes_of_complete [∀ l s m, Decidable (allowed l s m)] {lbls : List (Label A E)}
    (h : complete P allowed e lbls s l = some (s', l')) : Completes P allowed e s l s' l' := by
  obtain ⟨st, hst, h⟩ := Option.bind_eq_some_iff.mp h
  obtain ⟨st₁, he, hexec⟩ := Option.bind_eq_some_iff.mp hst
  split at h
  · rename_i hq
    cases h
    have hend : st = start st.store st.loc := by
      obtain ⟨store, loc, queue, ready⟩ := st
      obtain ⟨rfl, rfl⟩ := hq
      rfl
    exact ⟨st₁, he, lbls, hend ▸ trace_of_exec hexec⟩
  · cases h

/-- What is permitted has no part in where a complete run ends. -/
theorem complete_unique {allowed' : L → S → Move K A E → Prop} [∀ l s m, Decidable (allowed l s m)]
    [∀ l s m, Decidable (allowed' l s m)] {lbls : List (Label A E)} {r r' : S × L}
    (h : complete P allowed e lbls s l = some r) (h' : complete P allowed' e lbls s l = some r') :
    r = r' := by
  obtain ⟨st, hst, h⟩ := Option.bind_eq_some_iff.mp h
  obtain ⟨st', hst', h'⟩ := Option.bind_eq_some_iff.mp h'
  obtain ⟨st₁, he, hexec⟩ := Option.bind_eq_some_iff.mp hst
  obtain ⟨st₁', he', hexec'⟩ := Option.bind_eq_some_iff.mp hst'
  obtain rfl := Option.some.inj (he.symm.trans he')
  obtain rfl := exec_unique hexec hexec'
  split at h
  · rename_i hq
    rw [if_pos hq] at h'
    exact Option.some.inj (h.symm.trans h')
  · cases h

end

end Wanderlust.Async
