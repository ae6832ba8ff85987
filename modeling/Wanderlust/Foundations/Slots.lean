import Wanderlust.Foundations.Runs
import Mathlib.Data.Multiset.AddSub

/-!
# What a slot shows

A slot (a label, an image of a cell) should show one value, and shows what it has been given last.
The values it is given arrive later than they were asked for, and in any order, so a value that was
asked for earlier can replace the right one. The slot ends with the right value exactly if each
wrong value arrives while the right one is still under way (`IsRun.shown_iff`).
-/

namespace Wanderlust.Runs

/-- A slot: what it should show, if anything, what it shows, and what is under way to it. -/
structure Slot (V : Type*) where
  wanted : Option V
  shown : V
  pending : Multiset V

namespace Slot

variable {V : Type*}

/-- The slot shows the right value, or will be given it. -/
def Promised (x : Slot V) : Prop := ∀ v ∈ x.wanted, x.shown = v ∨ v ∈ x.pending

/-- What a step other than a reset does to a slot, where `answer` is what the slot is given in
it. -/
inductive Step (x y : Slot V) : (answer : Option V) → Prop
  | other (hwanted : y.wanted = x.wanted) (hshown : y.shown = x.shown)
      (hpending : y.pending = x.pending) : Step x y none
  | answer {v : V} (hwanted : y.wanted = x.wanted) (hshown : x.wanted ≠ none → y.shown = v)
      (hpending : x.pending = v ::ₘ y.pending) : Step x y (some v)

variable [DecidableEq V]

/-- If the slot is given a wrong value, the right one is still under way to it. -/
def Timely (x : Slot V) (answer : Option V) : Prop :=
  ∀ v ∈ answer, ∀ w ∈ x.wanted, v = w ∨ w ∈ x.pending.erase v

instance (x : Slot V) (answer : Option V) : Decidable (x.Timely answer) :=
  inferInstanceAs (Decidable (∀ v ∈ answer, ∀ w ∈ x.wanted, v = w ∨ w ∈ x.pending.erase v))

variable {x y : Slot V} {answer : Option V}

/-- **One step.** -/
theorem Step.promised_iff (h : Step x y answer) : y.Promised ↔ x.Promised ∧ x.Timely answer := by
  cases h with
  | other hwanted hshown hpending =>
    rw [Promised, Promised, hwanted, hshown, hpending]
    exact (and_iff_left fun v hv => by cases hv).symm
  | @answer v hwanted hshown hpending =>
    have herase : x.pending.erase v = y.pending := by rw [hpending, Multiset.erase_cons_head]
    constructor
    · intro hy
      have hright : ∀ w ∈ x.wanted, v = w ∨ w ∈ y.pending := by
        intro w hw
        rw [← hshown (by rw [Option.mem_def.mp hw]; simp)]
        exact hy w (hwanted ▸ hw)
      refine ⟨fun w hw => Or.inr ?_, fun v' hv' w hw => ?_⟩
      · rw [hpending, Multiset.mem_cons]
        exact (hright w hw).imp Eq.symm id
      · obtain rfl : v = v' := Option.some.inj hv'
        rw [herase]
        exact hright w hw
    · rintro ⟨-, htimely⟩ w hw
      rw [hwanted] at hw
      rw [hshown (by rw [Option.mem_def.mp hw]; simp), ← herase]
      exact htimely v rfl w hw

end Slot

variable {σ ι V : Type*} [DecidableEq V] {R : σ → ι → σ → Prop} {I : σ → Prop} {s : σ}
  {tr : List (ι × σ)}

/-- **The rule for slots**: at the end of a run, when nothing is under way to the slot any more, it
shows what it should exactly if, since the last reset, each wrong value was given to it while the
right one was still under way. -/
theorem IsRun.shown_iff (slot : σ → Slot V) (answer : σ → ι → Option V) (reset : σ → ι → Prop)
    (hstep : ∀ s i s', I s → R s i s' → I s' ∧ (reset s i → (slot s').Promised) ∧
      (¬ reset s i → (slot s).Step (slot s') (answer s i)))
    (h : IsRun R s tr) (hs : I s) (hpromised : (slot s).Promised)
    (hquiet : (slot (Runs.final s tr)).pending = 0) :
    (∀ v ∈ (slot (Runs.final s tr)).wanted, (slot (Runs.final s tr)).shown = v) ↔
      MeetsSince reset (fun s i => (slot s).Timely (answer s i)) s tr := by
  have hend : (slot (Runs.final s tr)).Promised ↔
      ∀ v ∈ (slot (Runs.final s tr)).wanted, (slot (Runs.final s tr)).shown = v := by
    simp only [Slot.Promised, hquiet, Multiset.notMem_zero, or_false]
  rw [← hend, h.final_iff_meetsSince (G := fun s => (slot s).Promised)
    (fun s i s' hs hR => ?_) hs]
  · exact and_iff_right fun _ => hpromised
  · obtain ⟨hI, hreset, hother⟩ := hstep s i s' hs hR
    exact ⟨hI, hreset, fun hi => (hother hi).promised_iff⟩

end Wanderlust.Runs
