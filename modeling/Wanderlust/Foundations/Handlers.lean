import Wanderlust.Foundations.Runs
import Wanderlust.Foundations.Shared

/-!
# Rules for code

What a piece of code keeps of the client's state, and what the commands are like that it issues
(`Handler.Emits`), by the way the code is put together; and what follows for the store, when all
writes of a client are of a kind that keeps an invariant (`step_writes`), or when some of those in
the queue may be rejected (`Throughout`).
-/

namespace Wanderlust.Async

/-- If the command is a write, it is `P`. -/
def Cmd.Writes {W K : Type*} (P : W → Prop) : Cmd W K → Prop
  | .write w _ => P w
  | .request _ => True

theorem Cmd.Writes.mono {W K : Type*} {P Q : W → Prop} {c : Cmd W K} (h : c.Writes P)
    (hPQ : ∀ w, P w → Q w) : c.Writes Q := by
  cases c with
  | write w k => exact hPQ w h
  | request k => trivial

namespace Handler

variable {L W K α : Type*} {I J : L → Prop} {p q : Cmd W K → Prop} {f g : Handler L W K}

/-- From a client state in `I`, the code ends in one, and its commands are all `p`. -/
def Emits (I : L → Prop) (p : Cmd W K → Prop) (f : Handler L W K) : Prop :=
  ∀ l, I l → I (f l).1 ∧ ∀ c ∈ (f l).2, p c

theorem Emits.mono (h : Emits I p f) (hpq : ∀ c, p c → q c) : Emits I q f :=
  fun l hl => ⟨(h l hl).1, fun c hc => hpq c ((h l hl).2 c hc)⟩

theorem emits_skip : Emits I p (skip : Handler L W K) :=
  fun l hl => ⟨hl, fun c hc => by simp at hc⟩

theorem emits_modify {m : L → L} (h : ∀ l, I l → I (m l)) : Emits I p (modify m) :=
  fun l hl => ⟨h l hl, fun c hc => by simp at hc⟩

theorem emits_issue {m : L → List (Cmd W K)} (h : ∀ l, I l → ∀ c ∈ m l, p c) :
    Emits I p (issue m) :=
  fun l hl => ⟨hl, h l hl⟩

theorem Emits.andThen (hf : Emits I p f) (hg : Emits I p g) : Emits I p (f.andThen g) := by
  intro l hl
  obtain ⟨h₁, h₂⟩ := hf l hl
  obtain ⟨h₃, h₄⟩ := hg _ h₁
  exact ⟨h₃, fun c hc => (List.mem_append.mp hc).elim (h₂ c) (h₄ c)⟩

/-- The rule for loops. -/
theorem emits_forEach {f : α → Handler L W K} {xs : List α} (h : ∀ x ∈ xs, Emits I p (f x)) :
    Emits I p (forEach f xs) := by
  induction xs with
  | nil => exact emits_skip
  | cons x xs ih =>
    exact (h x List.mem_cons_self).andThen (ih fun y hy => h y (List.mem_cons_of_mem _ hy))

end Handler

section

variable {S L W K A E : Type*} {P : Program S L W K A E} {st st' : State S L W K}

/-- The step `lbl` runs code, which ends in `r.1` and issues `r.2`. -/
inductive Program.Runs (P : Program S L W K A E) (st : State S L W K) :
    Label A E → L × List (Cmd W K) → Prop
  | event {e : E} {r : L × List (Cmd W K)} (h : P.event e st.loc (P.view st) = some r) :
    P.Runs st (.event e) r
  | deliver {i : ℕ} {ok : Bool} {a : A} {k : K} {o : Option Bool} {r : L × List (Cmd W K)}
    (hi : st.ready[i]? = some (k, o)) (ho : o = none ∨ o = some ok)
    (h : P.react k ok a st.loc (P.view st) = some r) : P.Runs st (.deliver i ok a) r

/-- A step, unless it rejects a write. -/
def Program.turn (P : Program S L W K A E) (st : State S L W K) :
    Label A E → Option (State S L W K)
  | .reject => none
  | lbl => P.step lbl st

theorem turn_eq_some {lbl : Label A E} :
    P.turn st lbl = some st' ↔ lbl ≠ .reject ∧ P.step lbl st = some st' := by
  cases lbl <;> simp [Program.turn]

/-- A step that rejects no write is nothing to the client, or a step of the direct machine. -/
theorem turn_move {lbl : Label A E} (h : P.turn st lbl = some st') :
    (st.move lbl = none ∧ P.direct st' = P.direct st) ∨
      ∃ m, st.move lbl = some m ∧ DirectStep P (P.direct st) m (P.direct st') := by
  obtain ⟨hlbl, hstep⟩ := turn_eq_some.mp h
  rcases step_move hstep with ⟨hnone, hsame, -⟩ | hmove
  · exact Or.inl ⟨hnone, hsame.resolve_left hlbl⟩
  · exact Or.inr hmove

theorem move_eq_event {lbl : Label A E} {e : E} :
    st.move lbl = some (.event e) ↔ lbl = .event e := by
  cases lbl with
  | event e' => simp [State.move]
  | deliver i ok a => simp [State.move]
  | _ => simp [State.move]

/-- The callbacks that stay when the code of a step starts. -/
def State.awaited (st : State S L W K) : Label A E → List (K × Option Bool)
  | .deliver i _ _ => st.ready.eraseIdx i
  | _ => st.ready

theorem mem_ready_of_awaited {lbl : Label A E} {x : K × Option Bool} (h : x ∈ st.awaited lbl) :
    x ∈ st.ready := by
  cases lbl with
  | deliver i ok a => exact List.mem_of_mem_eraseIdx h
  | _ => exact h

theorem mem_bag_of_ready {x : K × Option Bool} (h : x ∈ st.ready) : x.1 ∈ (P.direct st).bag :=
  Multiset.mem_add.mpr (Or.inl (Multiset.mem_coe.mpr (List.mem_map_of_mem h)))

/-- **What a step does**: code runs, and its writes are put at the end of the queue; or the first
write in the queue leaves it. -/
theorem step_runs {lbl : Label A E} (h : P.step lbl st = some st') :
    (∃ r, P.Runs st lbl r ∧
      st' = ⟨st.store, r.1, st.queue ++ writes r.2, st.awaited lbl ++ requests r.2⟩) ∨
    ∃ w k q, st.queue = (w, k) :: q ∧
      (lbl = .apply ∧
        st' = ⟨P.apply w st.store, st.loc, q, st.ready ++ k.toList.map fun k => (k, some true)⟩ ∨
      lbl = .reject ∧
        st' = ⟨st.store, st.loc, q, st.ready ++ k.toList.map fun k => (k, some false)⟩) := by
  cases lbl with
  | event e =>
    obtain ⟨r, hr, rfl⟩ := Option.map_eq_some_iff.mp h
    exact Or.inl ⟨r, .event hr, issue_eq _ _⟩
  | deliver i ok a =>
    simp only [Program.step] at h
    split at h
    · cases h
    · rename_i k o hi
      split at h
      · rename_i ho
        obtain ⟨r, hr, rfl⟩ := Option.map_eq_some_iff.mp h
        exact Or.inl ⟨r, .deliver hi ho hr, issue_eq _ _⟩
      · cases h
  | apply =>
    simp only [Program.step] at h
    split at h <;> cases h
    rename_i w k q hq
    exact Or.inr ⟨w, k, q, hq, Or.inl ⟨rfl, rfl⟩⟩
  | reject =>
    simp only [Program.step] at h
    split at h <;> cases h
    rename_i w k q hq
    exact Or.inr ⟨w, k, q, hq, Or.inr ⟨rfl, rfl⟩⟩

/-- The write that takes effect in a step. -/
def State.taking (st : State S L W K) : Label A E → Option W
  | .apply => st.queue.head?.map Prod.fst
  | _ => none

theorem mem_queue_of_taking {lbl : Label A E} {w : W} (h : st.taking lbl = some w) :
    lbl = .apply ∧ ∃ k, (w, k) ∈ st.queue := by
  cases lbl with
  | apply =>
    obtain ⟨x, hx, rfl⟩ := Option.map_eq_some_iff.mp h
    exact ⟨rfl, x.2, List.mem_of_head? hx⟩
  | _ => cases h

/-- The store changes by the write that takes effect, if there is one. -/
theorem store_of_step {lbl : Label A E} (h : P.step lbl st = some st') :
    st'.store = (st.taking lbl).elim st.store fun w => P.apply w st.store := by
  rcases step_runs h with ⟨r, hr, rfl⟩ | ⟨w, k, q, hq, ⟨rfl, rfl⟩ | ⟨rfl, rfl⟩⟩
  · cases hr <;> rfl
  · simp [State.taking, hq]
  · rfl

/-- **The rule for the store**: when the writes that the code issues are all `Q`, and `Q` writes
keep `G`, the store keeps `G`. -/
theorem step_writes {G : S → Prop} {Q : W → Prop} {lbl : Label A E}
    (hQ : ∀ w, Q w → ∀ s, G s → G (P.apply w s)) (hG : G st.store)
    (hqueue : ∀ x ∈ st.queue, Q x.1)
    (hcode : ∀ r, P.Runs st lbl r → ∀ c ∈ r.2, c.Writes Q) (h : P.step lbl st = some st') :
    G st'.store ∧ ∀ x ∈ st'.queue, Q x.1 := by
  rcases step_runs h with ⟨r, hr, rfl⟩ | ⟨w, k, q, hq, ⟨-, rfl⟩ | ⟨-, rfl⟩⟩
  · refine ⟨hG, fun x hx => ?_⟩
    rcases List.mem_append.mp hx with hx | hx
    · exact hqueue x hx
    · exact hcode r hr _ (mem_writes.mp hx)
  · rw [hq] at hqueue
    exact ⟨hQ w (hqueue _ List.mem_cons_self) _ hG,
      fun x hx => hqueue x (List.mem_cons_of_mem _ hx)⟩
  · rw [hq] at hqueue
    exact ⟨hG, fun x hx => hqueue x (List.mem_cons_of_mem _ hx)⟩

/-- What the store has and the writes in the queue keep, the code sees. -/
theorem view_of_writes {G : S → Prop} {Q : W → Prop} (hQ : ∀ w, Q w → ∀ s, G s → G (P.apply w s))
    (hG : G st.store) (hqueue : ∀ x ∈ st.queue, Q x.1) : G (P.view st) := by
  unfold Program.view
  generalize st.queue = q at hqueue
  generalize st.store = s at hG
  induction q generalizing s with
  | nil => exact hG
  | cons x q ih =>
    exact ih (fun y hy => hqueue y (List.mem_cons_of_mem x hy)) _
      (hQ _ (hqueue x List.mem_cons_self) s hG)

/-! ### However the writes turn out -/

/-- `G` holds of the store, and will hold however the writes in the queue turn out, of which each
takes effect or, if it `fails`, is rejected. -/
def Throughout (apply : W → S → S) (fails : W → Prop) (G : S → Prop) : List W → S → Prop
  | [], s => G s
  | w :: ws, s => G s ∧ Throughout apply fails G ws (apply w s) ∧
      (fails w → Throughout apply fails G ws s)

variable {apply : W → S → S} {fails : W → Prop} {G H : S → Prop} {ws ws' : List W} {w : W} {s : S}

theorem Throughout.now (h : Throughout apply fails G ws s) : G s := by
  cases ws with
  | nil => exact h
  | cons w ws => exact h.1

theorem Throughout.mono (h : Throughout apply fails G ws s) (hGH : ∀ s, G s → H s) :
    Throughout apply fails H ws s := by
  induction ws generalizing s with
  | nil => exact hGH s h
  | cons w ws ih => exact ⟨hGH s h.1, ih h.2.1, fun hw => ih (h.2.2 hw)⟩

theorem Throughout.and (h : Throughout apply fails G ws s) (h' : Throughout apply fails H ws s) :
    Throughout apply fails (fun s => G s ∧ H s) ws s := by
  induction ws generalizing s with
  | nil => exact ⟨h, h'⟩
  | cons w ws ih => exact ⟨⟨h.1, h'.1⟩, ih h.2.1 h'.2.1, fun hw => ih (h.2.2 hw) (h'.2.2 hw)⟩

theorem throughout_forall {α : Type*} {p : α → Prop} {G : α → S → Prop}
    (h : ∀ a, p a → Throughout apply fails (G a) ws s) :
    Throughout apply fails (fun s => ∀ a, p a → G a s) ws s := by
  induction ws generalizing s with
  | nil => exact h
  | cons w ws ih =>
    exact ⟨fun a ha => (h a ha).1, ih fun a ha => (h a ha).2.1, fun hw => ih fun a ha =>
      (h a ha).2.2 hw⟩

/-- Writes that keep `G` are put at the end of the queue. -/
theorem Throughout.append (h : Throughout apply fails G ws s)
    (hkeep : ∀ w ∈ ws', ∀ s, G s → G (apply w s)) : Throughout apply fails G (ws ++ ws') s := by
  induction ws generalizing s with
  | cons w ws ih => exact ⟨h.1, ih h.2.1, fun hw => ih (h.2.2 hw)⟩
  | nil =>
    induction ws' generalizing s with
    | nil => exact h
    | cons w ws' ih =>
      have hrest : ∀ w ∈ ws', ∀ s, G s → G (apply w s) :=
        fun w hw => hkeep w (List.mem_cons_of_mem _ hw)
      exact ⟨h, ih hrest (hkeep w List.mem_cons_self s h), fun _ => ih hrest h⟩

theorem throughout_of_keep (hs : G s) (hkeep : ∀ w ∈ ws, ∀ s, G s → G (apply w s)) :
    Throughout apply fails G ws s :=
  Throughout.append (show Throughout apply fails G [] s from hs) hkeep

/-- What holds however the writes turn out holds of the store as the client sees it. -/
theorem Throughout.view (h : Throughout P.apply fails G (st.queue.map Prod.fst) st.store) :
    G (P.view st) := by
  unfold Program.view
  generalize st.queue = q at h ⊢
  generalize st.store = s at h ⊢
  induction q generalizing s with
  | nil => exact h
  | cons x q ih => exact ih _ h.2.1

/-- **The rule for the queue**: a step keeps what holds however the writes in the queue turn out,
if the writes that its code issues keep `G` and only a write that `fails` is rejected. -/
theorem Throughout.step {lbl : Label A E}
    (hG : Throughout P.apply fails G (st.queue.map Prod.fst) st.store)
    (h : P.step lbl st = some st')
    (hcode : ∀ r, P.Runs st lbl r → ∀ c ∈ r.2, c.Writes fun w => ∀ s, G s → G (P.apply w s))
    (hreject : lbl = .reject → ∀ x ∈ st.queue.head?, fails x.1) :
    Throughout P.apply fails G (st'.queue.map Prod.fst) st'.store := by
  rcases step_runs h with ⟨r, hr, rfl⟩ | ⟨w, k, q, hq, ⟨-, rfl⟩ | ⟨hlbl, rfl⟩⟩
  · rw [List.map_append]
    refine hG.append fun w hw => ?_
    obtain ⟨x, hx, rfl⟩ := List.mem_map.mp hw
    exact hcode r hr _ (mem_writes.mp hx)
  · rw [hq] at hG
    exact hG.2.1
  · rw [hq] at hG hreject
    exact hG.2.2 (hreject hlbl (w, k) rfl)

theorem effect_eq_foldl (cs : List (Cmd W K)) (s : S) :
    effect apply cs s = (writes cs).foldl (fun s w => apply w.1 s) s := by
  induction cs generalizing s with
  | nil => rfl
  | cons c cs ih => cases c <;> simp [writes, ih]

/-- The writes in the queue can take effect, one after the other. -/
theorem exists_applies {ok : State S L W K → Label A E → Prop} (hok : ∀ st, ok st .apply)
    {q q' : List (W × Option K)} (hq : st.queue = q ++ q') :
    ∃ tr, Runs.IsRun (fun st lbl st' => P.step lbl st = some st' ∧ ok st lbl) st tr ∧
      (Runs.final st tr).store = q.foldl (fun s w => P.apply w.1 s) st.store := by
  induction q generalizing st with
  | nil => exact ⟨[], trivial, rfl⟩
  | cons x q ih =>
    obtain ⟨w, k⟩ := x
    obtain ⟨st₁, hs, hq₁, hstore₁⟩ : ∃ st₁, P.step .apply st = some st₁ ∧ st₁.queue = q ++ q' ∧
        st₁.store = P.apply w st.store :=
      ⟨⟨P.apply w st.store, st.loc, q ++ q', st.ready ++ k.toList.map fun k => (k, some true)⟩,
        by simp [Program.step, hq], rfl, rfl⟩
    obtain ⟨tr, hrun, hstore⟩ := ih hq₁
    rw [hstore₁] at hstore
    exact ⟨(.apply, st₁) :: tr, ⟨⟨hs, hok st⟩, hrun⟩, hstore⟩

end

end Wanderlust.Async
