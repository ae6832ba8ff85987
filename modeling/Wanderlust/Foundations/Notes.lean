import Wanderlust.Foundations.Handlers

/-!
# Writes with notes

To say of a write that takes effect what it was issued for, each write carries a note from the
code that issues it to the store (`Program.noted`). Without the notes, a program with notes takes
the steps of the program (`step_noted`).

What a write goes back to can be several answers ago. A mark is a note that the callbacks carry as
well: what the code of an answer issues gets the mark of its callback, with what the answer adds to
it (`Program.marked`, `step_marked`).
-/

namespace Wanderlust.Async

variable {S L W K A E N : Type*}

/-- A command whose write carries a note. -/
def Cmd.note (n : N) : Cmd W K → Cmd (W × N) K
  | .write w k => .write (w, n) k
  | .request k => .request k

/-- The program `P` with notes: `note` is that of the `i`-th command of an action, and `silent` that
of the commands of an answer. -/
def Program.noted (P : Program S L W K A E) (note : E → L → ℕ → N) (silent : N) :
    Program S L (W × N) K A E where
  apply w := P.apply w.1
  react k ok a l s := (P.react k ok a l s).map fun r => (r.1, r.2.map (Cmd.note silent))
  event e l s := (P.event e l s).map fun r => (r.1, r.2.mapIdx fun i c => c.note (note e l i))

/-- The command without its note. -/
def Cmd.plain : Cmd (W × N) K → Cmd W K
  | .write w k => .write w.1 k
  | .request k => .request k

/-- The state without the notes. -/
def State.plain (st : State S L (W × N) K) : State S L W K :=
  ⟨st.store, st.loc, st.queue.map fun x => (x.1.1, x.2), st.ready⟩

section

variable {P : Program S L W K A E} {note : E → L → ℕ → N} {silent : N}
  {st : State S L (W × N) K}

theorem view_noted : (P.noted note silent).view st = P.view st.plain := by
  simp only [Program.view, State.plain, List.foldl_map]
  rfl

@[simp] theorem plain_note (n : N) (c : Cmd W K) : (c.note n).plain = c := by cases c <;> rfl

theorem plain_issue (st : State S L (W × N) K) (cs : List (Cmd (W × N) K)) :
    (st.issue cs).plain = st.plain.issue (cs.map Cmd.plain) := by
  induction cs generalizing st with
  | nil => rfl
  | cons c cs ih =>
    cases c with
    | write w k =>
      simp only [State.issue, List.map_cons, Cmd.plain, ih]
      simp [State.plain]
    | request k =>
      simp only [State.issue, List.map_cons, Cmd.plain, ih]
      rfl

theorem map_plain_note (n : N) (cs : List (Cmd W K)) :
    (cs.map (Cmd.note n)).map Cmd.plain = cs := by
  rw [List.map_map]
  exact (List.map_congr_left fun c _ => plain_note n c).trans (List.map_id' cs)

theorem mapIdx_plain_note (f : ℕ → N) (cs : List (Cmd W K)) :
    (cs.mapIdx fun i c => c.note (f i)).map Cmd.plain = cs := by
  apply List.ext_getElem?
  intro i
  rw [List.getElem?_map, List.getElem?_mapIdx]
  cases cs[i]? <;> simp

/-- **Notes change nothing.** -/
theorem step_noted (lbl : Label A E) (st : State S L (W × N) K) :
    ((P.noted note silent).step lbl st).map State.plain = P.step lbl st.plain := by
  cases lbl with
  | event e =>
    simp only [Program.step, view_noted, Option.map_map]
    simp only [Program.noted, Option.map_map]
    refine congrArg (fun f => Option.map f _) (funext fun r => ?_)
    simp only [Function.comp_apply, plain_issue, mapIdx_plain_note]
    rfl
  | apply =>
    obtain ⟨s, l, q, ready⟩ := st
    cases q <;> rfl
  | reject =>
    obtain ⟨s, l, q, ready⟩ := st
    cases q <;> rfl
  | deliver i ok a =>
    have hready : st.plain.ready = st.ready := rfl
    simp only [Program.step, view_noted, hready]
    cases st.ready[i]? with
    | none => rfl
    | some x =>
      obtain ⟨k, o⟩ := x
      dsimp only
      split
      · simp only [Program.noted, Option.map_map]
        refine congrArg (fun f => Option.map f _) (funext fun r => ?_)
        simp only [Function.comp_apply, plain_issue, map_plain_note]
        rfl
      · rfl

/-- What a step that runs code of the program with notes runs. -/
theorem runs_noted {lbl : Label A E} {r : L × List (Cmd (W × N) K)}
    (h : (P.noted note silent).Runs st lbl r) :
    (∃ e r₀, lbl = .event e ∧ P.event e st.loc (P.view st.plain) = some r₀ ∧
      r = (r₀.1, r₀.2.mapIdx fun i c => c.note (note e st.loc i))) ∨
    ∃ k ok a r₀, k ∈ st.ready.map Prod.fst ∧ P.react k ok a st.loc (P.view st.plain) = some r₀ ∧
      r = (r₀.1, r₀.2.map (Cmd.note silent)) := by
  cases h with
  | event h =>
    rw [view_noted] at h
    obtain ⟨r₀, h₀, rfl⟩ := Option.map_eq_some_iff.mp h
    exact Or.inl ⟨_, r₀, rfl, h₀, rfl⟩
  | deliver hi ho h =>
    rw [view_noted] at h
    obtain ⟨r₀, h₀, rfl⟩ := Option.map_eq_some_iff.mp h
    exact Or.inr ⟨_, _, _, r₀, List.mem_map_of_mem (List.mem_of_getElem? hi), h₀, rfl⟩

end

/-! ## Marks -/

/-- A command whose write and whose callback carry a mark. -/
def Cmd.mark (n : N) : Cmd W K → Cmd (W × N) (K × N)
  | .write w k => .write (w, n) (k.map fun k => (k, n))
  | .request k => .request (k, n)

/-- The program `P` with marks: `fresh` is that of the commands of an action, and `hand` says what
an answer makes of the mark of its callback. -/
def Program.marked (P : Program S L W K A E) (fresh : N) (hand : K → S → N → N) :
    Program S L (W × N) (K × N) A E where
  apply w := P.apply w.1
  react k ok a l s := (P.react k.1 ok a l s).map fun r => (r.1, r.2.map (Cmd.mark (hand k.1 s k.2)))
  event e l s := (P.event e l s).map fun r => (r.1, r.2.map (Cmd.mark fresh))

/-- The command without its mark. -/
def Cmd.unmark : Cmd (W × N) (K × N) → Cmd W K
  | .write w k => .write w.1 (k.map Prod.fst)
  | .request k => .request k.1

/-- The state without the marks. -/
def State.unmark (st : State S L (W × N) (K × N)) : State S L W K :=
  ⟨st.store, st.loc, st.queue.map fun x => (x.1.1, x.2.map Prod.fst),
    st.ready.map fun x => (x.1.1, x.2)⟩

section

variable {P : Program S L W K A E} {fresh : N} {hand : K → S → N → N}
  {st : State S L (W × N) (K × N)}

theorem view_marked : (P.marked fresh hand).view st = P.view st.unmark := by
  simp only [Program.view, State.unmark, List.foldl_map]
  rfl

theorem unmark_issue (st : State S L (W × N) (K × N)) (cs : List (Cmd (W × N) (K × N))) :
    (st.issue cs).unmark = st.unmark.issue (cs.map Cmd.unmark) := by
  induction cs generalizing st with
  | nil => rfl
  | cons c cs ih =>
    cases c with
    | write w k =>
      simp only [State.issue, List.map_cons, Cmd.unmark, ih]
      simp [State.unmark]
    | request k =>
      simp only [State.issue, List.map_cons, Cmd.unmark, ih]
      simp [State.unmark]

theorem map_unmark_mark (n : N) (cs : List (Cmd W K)) :
    (cs.map (Cmd.mark n)).map Cmd.unmark = cs := by
  have hid : ∀ c : Cmd W K, (c.mark n).unmark = c := by
    rintro (⟨w, _ | k⟩ | k) <;> rfl
  rw [List.map_map]
  exact (List.map_congr_left fun c _ => hid c).trans (List.map_id' cs)

/-- **Marks change nothing.** -/
theorem step_marked (lbl : Label A E) (st : State S L (W × N) (K × N)) :
    ((P.marked fresh hand).step lbl st).map State.unmark = P.step lbl st.unmark := by
  cases lbl with
  | event e =>
    simp only [Program.step, view_marked, Option.map_map]
    simp only [Program.marked, Option.map_map]
    refine congrArg (fun f => Option.map f _) (funext fun r => ?_)
    simp only [Function.comp_apply, unmark_issue, map_unmark_mark]
    rfl
  | apply =>
    obtain ⟨s, l, q, ready⟩ := st
    cases q with
    | nil => rfl
    | cons x q =>
      obtain ⟨w, _ | k⟩ := x <;> simp [Program.step, State.unmark, Program.marked]
  | reject =>
    obtain ⟨s, l, q, ready⟩ := st
    cases q with
    | nil => rfl
    | cons x q =>
      obtain ⟨w, _ | k⟩ := x <;> simp [Program.step, State.unmark]
  | deliver i ok a =>
    have hready : st.unmark.ready[i]? = st.ready[i]?.map fun x => (x.1.1, x.2) :=
      List.getElem?_map ..
    simp only [Program.step, view_marked, hready]
    cases st.ready[i]? with
    | none => rfl
    | some x =>
      obtain ⟨⟨k, n⟩, o⟩ := x
      simp only [Option.map_some]
      split
      · simp only [Program.marked, Option.map_map]
        refine congrArg (fun f => Option.map f _) (funext fun r => ?_)
        simp only [Function.comp_apply, unmark_issue, map_unmark_mark]
        simp [State.unmark, List.eraseIdx_map]
      · rfl

/-- What a step that runs code of the program with marks runs. -/
theorem runs_marked {lbl : Label A E} {r : L × List (Cmd (W × N) (K × N))}
    (h : (P.marked fresh hand).Runs st lbl r) :
    (∃ e r₀, P.event e st.loc (P.view st.unmark) = some r₀ ∧
      r = (r₀.1, r₀.2.map (Cmd.mark fresh))) ∨
    ∃ k n ok a r₀, (k, n) ∈ st.ready.map Prod.fst ∧
      P.react k ok a st.loc (P.view st.unmark) = some r₀ ∧
      r = (r₀.1, r₀.2.map (Cmd.mark (hand k (P.view st.unmark) n))) := by
  cases h with
  | event h =>
    rw [view_marked] at h
    obtain ⟨r₀, h₀, rfl⟩ := Option.map_eq_some_iff.mp h
    exact Or.inl ⟨_, r₀, h₀, rfl⟩
  | deliver hi ho h =>
    rw [view_marked] at h
    obtain ⟨r₀, h₀, rfl⟩ := Option.map_eq_some_iff.mp h
    exact Or.inr ⟨_, _, _, _, r₀, List.mem_map_of_mem (List.mem_of_getElem? hi), h₀, rfl⟩

end

end Wanderlust.Async
