import Mathlib.Logic.Relation
import Wanderlust.Foundations.Listener

/-!
# Actions that are answered

A user does something and waits until everything is answered, and nothing fails. The answers
arrive in any order (`Answer`). What this leads to is a relation between the states before and
after the action (`Settles`), which is all that there is to the asynchronous runs of this kind
(`settles_of_completes`). A part of a client can be taken for a client of its own
(`Settles.of_part`).
-/

namespace Wanderlust.Async

section

variable {α β : Type*} {a : α} {b : β} {s s' rest : Multiset α} {t : Multiset β}

/-- What one of two bags is taken from. -/
theorem take_add (h : s + s' = a ::ₘ rest) :
    (∃ s₁, s = a ::ₘ s₁ ∧ rest = s₁ + s') ∨ ∃ s₁, s' = a ::ₘ s₁ ∧ rest = s + s₁ := by
  have hmem : a ∈ s + s' := h ▸ Multiset.mem_cons_self a rest
  rcases Multiset.mem_add.mp hmem with ha | ha
  · obtain ⟨s₁, rfl⟩ := Multiset.exists_cons_of_mem ha
    rw [Multiset.cons_add] at h
    exact .inl ⟨s₁, rfl, ((Multiset.cons_inj_right a).mp h).symm⟩
  · obtain ⟨s₁, rfl⟩ := Multiset.exists_cons_of_mem ha
    rw [Multiset.add_cons] at h
    exact .inr ⟨s₁, rfl, ((Multiset.cons_inj_right a).mp h).symm⟩

/-- What is taken from an image. -/
theorem take_map {f : α → β} (h : s.map f = b ::ₘ t) :
    ∃ a s₁, s = a ::ₘ s₁ ∧ b = f a ∧ t = s₁.map f := by
  have hmem : b ∈ s.map f := h ▸ Multiset.mem_cons_self b t
  obtain ⟨a, ha, rfl⟩ := Multiset.mem_map.mp hmem
  obtain ⟨s₁, rfl⟩ := Multiset.exists_cons_of_mem ha
  rw [Multiset.map_cons] at h
  exact ⟨a, s₁, rfl, rfl, ((Multiset.cons_inj_right _).mp h).symm⟩

end

variable {S L W K A E : Type*}

/-- The user waits, and nothing fails. -/
def Undisturbed (_ : L) (_ : S) : Move K A E → Prop
  | .event _ => False
  | .deliver _ ok _ => ok = true

instance (l : L) (s : S) : DecidablePred (Undisturbed l s : Move K A E → Prop)
  | .event _ => inferInstanceAs (Decidable False)
  | .deliver _ ok _ => inferInstanceAs (Decidable (ok = true))

/-- An answer arrives. -/
inductive Answer (P : Program S L W K A E) (x : Direct S L K) : Direct S L K → Prop
  | intro {k : K} {a : A} {rest : Multiset K} {r : L × List (Cmd W K)} (hb : x.bag = k ::ₘ rest)
      (hr : P.react k true a x.loc x.store = some r) : Answer P x (P.after r { x with bag := rest })

/-- The user does `e`, and everything is answered. -/
def Settles (P : Program S L W K A E) (e : E) (s : S) (l : L) (s' : S) (l' : L) : Prop :=
  ∃ r, P.event e l s = some r ∧
    Relation.ReflTransGen (Answer P) (P.after r ⟨s, l, 0⟩) ⟨s', l', 0⟩

section

variable {P : Program S L W K A E} {e : E} {s s' : S} {l l' : L}

/-- **The asynchronous runs.** -/
theorem settles_of_completes (h : Completes P Undisturbed e s l s' l') :
    Settles P e s l s' l' := by
  obtain ⟨r, hr⟩ : ∃ r, P.event e l s = some r := by
    obtain ⟨st, he, -⟩ := h
    obtain ⟨r, hr, -⟩ := Option.map_eq_some_iff.mp he
    exact ⟨r, hr⟩
  refine ⟨r, hr, h.invariant (fun r' hr' => ?_) fun x m x' hx hm hs => hx.tail ?_⟩
  · obtain rfl := Option.some.inj (hr.symm.trans hr')
    exact .refl
  · cases hs with
    | event he => exact hm.elim
    | deliver hb hreact =>
      obtain rfl := hm
      exact .intro hb hreact

/-- The invariant rule. -/
theorem Settles.invariant {I : Direct S L K → Prop} (h : Settles P e s l s' l')
    (hstart : ∀ r, P.event e l s = some r → I (P.after r ⟨s, l, 0⟩))
    (hstep : ∀ x x', I x → Answer P x x' → I x') : I ⟨s', l', 0⟩ := by
  obtain ⟨r, he, hr⟩ := h
  have hall : ∀ x, Relation.ReflTransGen (Answer P) (P.after r ⟨s, l, 0⟩) x → I x := by
    intro x hx
    induction hx with
    | refl => exact hstart r he
    | tail _ hs ih => exact hstep _ _ ih hs
  exact hall _ hr

/-- An action that issues nothing. -/
theorem Settles.silent (h : Settles P e s l s' l') {l₁ : L} (he : P.event e l s = some (l₁, [])) :
    s' = s ∧ l' = l₁ := by
  have hend := h.invariant (I := fun x => x = ⟨s, l₁, 0⟩) (fun r hr => ?_) fun x x' hx hs => ?_
  · exact ⟨congrArg Direct.store hend, congrArg Direct.loc hend⟩
  · obtain rfl := Option.some.inj (he.symm.trans hr)
    rfl
  · subst hx
    cases hs with
    | intro hb hr => exact absurd hb.symm (Multiset.cons_ne_zero)

/-- The user can do it. -/
theorem Settles.event (h : Settles P e s l s' l') : ∃ r, P.event e l s = some r := by
  obtain ⟨r, he, -⟩ := h
  exact ⟨r, he⟩

end

/-! ## Parts -/

section

variable {L' K' E' : Type*} {P : Program S L W K A E} {P' : Program S L' W K' A E'}

/-- `embed` puts a part of a client, which has the code of `P'`, into the client; `I` is what the
part keeps. -/
structure IsPart (P : Program S L W K A E) (P' : Program S L' W K' A E') (embed : L' → L)
    (tag : K' → K) (I : L' → Prop) : Prop where
  apply : P'.apply = P.apply
  react : ∀ k ok a l s, I l → P.react (tag k) ok a (embed l) s =
    (P'.react k ok a l s).map fun r => (embed r.1, r.2.map (Cmd.map tag))
  keeps : ∀ k ok a l s r, I l → P'.react k ok a l s = some r → I r.1

variable {embed : L' → L} {tag : K' → K} {I : L' → Prop}

/-- The state of the client with this state of the part. -/
def Direct.inside (f : L' → L) (tag : K' → K) (x : Direct S L' K') : Direct S L K :=
  ⟨x.store, f x.loc, x.bag.map tag⟩

/-- What the part's code does. -/
theorem IsPart.after (hpart : IsPart P P' embed tag I) (r : L' × List (Cmd W K'))
    (x : Direct S L' K') :
    P.after (embed r.1, r.2.map (Cmd.map tag)) (x.inside embed tag) =
      (P'.after r x).inside embed tag := by
  simp only [Program.after, Direct.inside, effect_map, callbacks_map, Multiset.map_add,
    hpart.apply]

/-- An answer to the part. -/
theorem IsPart.answer (hpart : IsPart P P' embed tag I) {x : Direct S L' K'} {y : Direct S L K}
    (hI : I x.loc) (hs : Answer P (x.inside embed tag) y) :
    ∃ x', Answer P' x x' ∧ I x'.loc ∧ y = x'.inside embed tag := by
  cases hs with
  | @intro k a rest r hb hr =>
    obtain ⟨k', rest', hrest', rfl, rfl⟩ := take_map hb
    have hreact : P.react (tag k') true a (embed x.loc) x.store = some r := hr
    rw [hpart.react k' true a x.loc x.store hI] at hreact
    obtain ⟨r', hr', rfl⟩ := Option.map_eq_some_iff.mp hreact
    refine ⟨_, .intro hrest' hr', hpart.keeps _ _ _ _ _ _ hI hr', ?_⟩
    rw [← hpart.after]
    rfl

/-- **The rule for parts**: what is done with a part is done with a client of its own. -/
theorem Settles.of_part (hpart : IsPart P P' embed tag I) {e : E} {e' : E'} {s s' : S} {l₀ : L'}
    {l' : L} (h : Settles P e s (embed l₀) s' l')
    (hevent : P.event e (embed l₀) s =
      (P'.event e' l₀ s).map fun r => (embed r.1, r.2.map (Cmd.map tag)))
    (hI : ∀ r, P'.event e' l₀ s = some r → I r.1) :
    ∃ l₁, Settles P' e' s l₀ s' l₁ ∧ l' = embed l₁ := by
  obtain ⟨r, he⟩ := h.event
  rw [hevent] at he
  obtain ⟨r', hr', rfl⟩ := Option.map_eq_some_iff.mp he
  have hstart : ∀ x : Direct S L' K', x.bag = 0 → P.after (embed r'.1, r'.2.map (Cmd.map tag))
      ⟨x.store, embed x.loc, 0⟩ = (P'.after r' x).inside embed tag := by
    intro x hx
    rw [← hpart.after, Direct.inside, hx, Multiset.map_zero]
  obtain ⟨x', hx', -, hend⟩ := h.invariant
    (I := fun y => ∃ x', Relation.ReflTransGen (Answer P') (P'.after r' ⟨s, l₀, 0⟩) x' ∧
      I x'.loc ∧ y = x'.inside embed tag)
    (fun r₁ hr₁ => by
      rw [hevent, hr', Option.map_some] at hr₁
      cases hr₁
      exact ⟨_, .refl, hI r' hr', hstart ⟨s, l₀, 0⟩ rfl⟩)
    fun y y' ⟨x, hx, hx', hy⟩ hs => by
      obtain ⟨x₁, hs₁, hI₁, hy₁⟩ := hpart.answer hx' (hy ▸ hs)
      exact ⟨x₁, hx.tail hs₁, hI₁, hy₁⟩
  have hbag : x'.bag = 0 := Multiset.map_eq_zero.mp (congrArg Direct.bag hend).symm
  have hstore : x'.store = s' := (congrArg Direct.store hend).symm
  refine ⟨x'.loc, ⟨r', hr', ?_⟩, congrArg Direct.loc hend⟩
  obtain ⟨store, loc, bag⟩ := x'
  obtain rfl := hbag
  obtain rfl := hstore
  exact hx'

end

end Wanderlust.Async
