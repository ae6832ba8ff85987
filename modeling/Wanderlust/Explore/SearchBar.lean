import Wanderlust.Explore.Explore
import Wanderlust.Foundations.Handlers

/-!
# The search bar of the explore screen

What the user does in the search bar, with the loads that it starts. `searchQuery` is what the next
load searches for, and also what the end of a load looks at to set `isFiltered`, before it is
cleared. So after every load the flag says whether a place was searched for exactly if, when a load
ends, what is in `searchQuery` is empty just as the query of the load is (`filter_flag_iff`).
-/

namespace Wanderlust

open Async Runs

namespace Explore

inductive SearchCallback
  | load (k : Callback)
  -- `didSelectRowAt`
  | placeSearched

/-- What the user does on the screen. -/
inductive SearchEvent
  | viewDidLoad
  | refreshEntries
  | textDidBeginEditing
  | textDidChange (searchText : String)
  | searchButtonClicked
  | cancelButtonClicked
  | didSelectRow

/-- What code of the screen does, with its callbacks among those of the search bar. -/
def load (r : Explore × List Cmd) : Explore × List (Async.Cmd Write SearchCallback) :=
  (r.1, r.2.map fun c => match c with
    | .write w k => .write w (k.map .load)
    | .request k => .request (.load k))

/-- The code of the closures. The answer of a search for a place is the title of the first one. -/
def searchReact : SearchCallback → Bool → Option String → Explore → Firestore →
    Option (Explore × List (Async.Cmd Write SearchCallback))
  | .load k, ok, _, l, db => (react k ok () l db).map load
  | .placeSearched, ok, title, l, db =>
    match if ok then title else none with
    | none => some (l, [])
    | some title => (event (.placeFound title) l db).map load

/-- The code of the user's actions. -/
def searchEvent : SearchEvent → Explore → Firestore →
    Option (Explore × List (Async.Cmd Write SearchCallback))
  | .viewDidLoad, l, db => (event .viewDidLoad l db).map load
  | .refreshEntries, l, db => (event .refreshEntries l db).map load
  -- shows the table of places
  | .textDidBeginEditing, l, _ => some (l, [])
  | .textDidChange searchText, l, db => (event (.textDidChange searchText) l db).map load
  | .searchButtonClicked, l, db => (event .searchButtonClicked l db).map load
  -- empties the text of the bar, which its delegate is not told
  | .cancelButtonClicked, l, _ => some (l, [])
  | .didSelectRow, l, _ => some (l, [.request .placeSearched])

/-- `ExploreViewController` with its search bar. -/
def searching :
    Async.Program Firestore Explore Write SearchCallback (Option String) SearchEvent where
  apply := Write.apply
  react := searchReact
  event := searchEvent

/-- A run of the screen. -/
abbrev Search := State Firestore Explore Write SearchCallback

abbrev SearchMove := Async.Move SearchCallback (Option String) SearchEvent

abbrev SearchLabel := Label (Option String) SearchEvent

/-- The load that ends: its query and the entries that it shows. -/
def ending (db : Firestore) : SearchMove → List (String × List Entry)
  | .deliver (.load (.entriesFetched searchQuery)) true _ =>
    [(searchQuery, shownEntries (db.exploreQuery searchQuery))]
  | _ => []

/-- When a load ends, what is in `searchQuery` is empty if the query of the load is, and only
then. -/
def Truthful (l : Explore) : SearchMove → Prop
  | .deliver (.load (.entriesFetched searchQuery)) true _ =>
    l.searchQuery.isEmpty = searchQuery.isEmpty
  | _ => True

/-- The loads that have ended in a step of a run. -/
def ended (st : Search) (lbl : SearchLabel) : List (String × List Entry) :=
  (st.move lbl).toList.flatMap (ending (searching.view st))

/-- If a load ends in a step, the flag will tell the truth. -/
def EndsTruthful (st : Search) (lbl : SearchLabel) : Prop := ∀ m ∈ st.move lbl, Truthful st.loc m

instance (l : Explore) : DecidablePred (Truthful l)
  | .event _ => inferInstanceAs (Decidable True)
  | .deliver .placeSearched _ _ => inferInstanceAs (Decidable True)
  | .deliver (.load .loadEntryData) _ _ => inferInstanceAs (Decidable True)
  | .deliver (.load (.entriesFetched _)) false _ => inferInstanceAs (Decidable True)
  | .deliver (.load (.entriesFetched _)) true _ => inferInstanceAs (Decidable (_ = _))

instance (st : Search) (lbl : SearchLabel) : Decidable (EndsTruthful st lbl) :=
  inferInstanceAs (Decidable (∀ m ∈ st.move lbl, Truthful st.loc m))

/-- The flag tells the truth about what is shown, which is what the last load has found. -/
def FlagRight (loads : List (String × List Entry)) (l : Explore) : Prop :=
  ∀ c ∈ loads.getLast?, l.entries = c.2 ∧ (l.isFiltered = true ↔ c.1.isEmpty = false)

section

variable {l : Explore} {db : Firestore} {x x' : Direct Firestore Explore SearchCallback}
  {m : SearchMove} {st st' : Search} {lbl : SearchLabel} {tr : List (SearchLabel × Search)}

/-- The user's actions, and the closures but one, leave what is shown and the flag alone. -/
theorem shown_of_event {e : Event} {r : Explore × List Cmd} (h : event e l db = some r) :
    r.1.entries = l.entries ∧ r.1.isFiltered = l.isFiltered := by
  cases e with
  | textDidChange searchText =>
    obtain rfl := Option.some.inj h
    dsimp only
    split <;> exact ⟨rfl, rfl⟩
  | _ =>
    cases h
    exact ⟨rfl, rfl⟩

/-- **One step**: no load ends and what is shown stays, or one ends and shows what it has found. -/
theorem search_step (h : DirectStep searching x m x') :
    ending x.store m = [] ∧ Truthful x.loc m ∧
        x'.loc.entries = x.loc.entries ∧ x'.loc.isFiltered = x.loc.isFiltered ∨
      ∃ q, ending x.store m = [(q, shownEntries (x.store.exploreQuery q))] ∧
        (Truthful x.loc m ↔ x.loc.searchQuery.isEmpty = q.isEmpty) ∧
        x'.loc.entries = shownEntries (x.store.exploreQuery q) ∧
        x'.loc.isFiltered = !x.loc.searchQuery.isEmpty := by
  cases h with
  | @event e r he =>
    left
    have hsame : ∀ e : Event, (event e x.loc x.store).map load = some r →
        r.1.entries = x.loc.entries ∧ r.1.isFiltered = x.loc.isFiltered := by
      intro e he
      obtain ⟨r₀, hr₀, rfl⟩ := Option.map_eq_some_iff.mp he
      exact shown_of_event hr₀
    refine ⟨rfl, trivial, ?_⟩
    cases e with
    | viewDidLoad => exact hsame .viewDidLoad he
    | refreshEntries => exact hsame .refreshEntries he
    | textDidChange searchText => exact hsame (.textDidChange searchText) he
    | searchButtonClicked => exact hsame .searchButtonClicked he
    | _ =>
      cases he
      exact ⟨rfl, rfl⟩
  | @deliver k ok a rest r hb hr =>
    cases k with
    | placeSearched =>
      left
      refine ⟨rfl, trivial, ?_⟩
      simp only [searching, searchReact] at hr
      split at hr
      · cases hr
        exact ⟨rfl, rfl⟩
      · obtain ⟨r₀, hr₀, rfl⟩ := Option.map_eq_some_iff.mp hr
        exact shown_of_event hr₀
    | load k =>
      obtain ⟨r₀, hr₀, rfl⟩ := Option.map_eq_some_iff.mp hr
      cases k with
      | loadEntryData =>
        left
        refine ⟨rfl, trivial, ?_⟩
        cases hr₀
        change (loadEntryData x.loc).1.entries = _ ∧ (loadEntryData x.loc).1.isFiltered = _
        simp only [loadEntryData]
        split <;> exact ⟨rfl, rfl⟩
      | entriesFetched q =>
        cases hr₀
        cases ok with
        | false =>
          left
          exact ⟨rfl, trivial, rfl, rfl⟩
        | true =>
          right
          refine ⟨q, rfl, Iff.rfl, rfl, ?_⟩
          change (if x.loc.searchQuery.isEmpty then false else true) = _
          cases x.loc.searchQuery.isEmpty <;> rfl

/-- What a step of a run does. -/
theorem ended_step (h : searching.turn st lbl = some st') :
    ended st lbl = [] ∧ EndsTruthful st lbl ∧
        st'.loc.entries = st.loc.entries ∧ st'.loc.isFiltered = st.loc.isFiltered ∨
      ∃ q es, ended st lbl = [(q, es)] ∧
        (EndsTruthful st lbl ↔ st.loc.searchQuery.isEmpty = q.isEmpty) ∧
        st'.loc.entries = es ∧ st'.loc.isFiltered = !st.loc.searchQuery.isEmpty := by
  unfold ended EndsTruthful
  rcases turn_move h with ⟨hnone, hsame⟩ | ⟨m, hm, hd⟩
  · rw [hnone]
    have hloc : st'.loc = st.loc := congrArg Direct.loc hsame
    refine Or.inl ⟨rfl, fun m hm => ?_, by rw [hloc], by rw [hloc]⟩
    cases hm
  · rw [hm]
    simp only [Option.toList_some, List.flatMap_singleton, Option.mem_def, Option.some.injEq,
      forall_eq']
    rcases search_step hd with hstay | ⟨q, hending, htruthful, hshown⟩
    · exact Or.inl hstay
    · exact Or.inr ⟨q, _, hending, htruthful, hshown⟩

/-- As long as every load ends truthfully, the flag is right. -/
theorem FlagRight.step {loads : List (String × List Entry)} (h : FlagRight loads st.loc)
    (hs : searching.turn st lbl = some st') (htruthful : EndsTruthful st lbl) :
    FlagRight (loads ++ ended st lbl) st'.loc := by
  rcases ended_step hs with ⟨hnone, -, hentries, hflag⟩ | ⟨q, es, hended, hiff, hentries, hflag⟩
  · rw [hnone, List.append_nil]
    intro c hc
    rw [hentries, hflag]
    exact h c hc
  · rw [hended]
    intro c hc
    rw [List.getLast?_concat] at hc
    obtain rfl := Option.some.inj hc
    refine ⟨hentries, ?_⟩
    rw [hflag, hiff.mp htruthful, Bool.not_eq_true']

/-- **When the flag tells the truth**: in a run of the screen, in every state after a load has
ended, what is shown is what the last load has found, and `isFiltered` says that this was of a
place, exactly if every load that ends finds `searchQuery` empty if its query was, and only then. -/
theorem filter_flag_iff (hrun : IsRun (fun st lbl st' => searching.turn st lbl = some st') st tr) :
    (∀ tr₁ tr₂, tr = tr₁ ++ tr₂ → FlagRight (collect ended st tr₁) (final st tr₁).loc) ↔
      Meets EndsTruthful st tr := by
  constructor
  · intro hall
    rw [meets_iff]
    intro tr₁ y tr₂ htr
    rw [htr, isRun_append] at hrun
    have hright := hall (tr₁ ++ [y]) tr₂ (by rw [htr, List.append_assoc]; rfl)
    rw [collect_append, final_append] at hright
    simp only [collect, final, List.append_nil] at hright
    rcases ended_step hrun.2.1 with ⟨-, htruthful, -⟩ | ⟨q, es, hended, hiff, -, hflag⟩
    · exact htruthful
    · rw [hended] at hright
      obtain ⟨-, hlast⟩ := hright (q, es) (by rw [List.getLast?_concat]; rfl)
      rw [hiff]
      rw [hflag, Bool.not_eq_true'] at hlast
      cases hq : q.isEmpty with
      | false => exact hlast.mpr hq
      | true =>
        by_contra hne
        rw [Bool.not_eq_true] at hne
        rw [hlast.mp hne] at hq
        cases hq
  · intro hmeets tr₁ tr₂ htr
    have hboth := hrun.and_meets hmeets
    rw [htr, isRun_append] at hboth
    have hstart : FlagRight [] st.loc := fun c hc => by cases hc
    have hflag := hboth.1.collect (f := ended)
      (I := fun loads st => FlagRight loads st.loc)
      (fun loads st lbl st' h hs => h.step hs.1 hs.2) hstart
    rwa [List.nil_append] at hflag

end

/-! ## A search -/

/-- An entry of Rome, and one of Paris. -/
def sampleEntries : Firestore :=
  samplePrivate (AList.insert "a" sampleSecret (AList.insert "b" { sampleSecret with
    entryName := "public", entryID := "b", locationName := "Paris" } ∅))

/-- Ann opens the screen, and all entries are loaded. -/
def openScreen : List SearchLabel :=
  [.event .viewDidLoad, .deliver 0 true none, .deliver 0 true none]

/-- Ann searches for Rome. -/
def searchRome : List SearchLabel :=
  [.event .textDidBeginEditing, .event (.textDidChange "Rome"), .event .searchButtonClicked,
    .deliver 0 true none]

/-- The flag is right when Ann has searched for Rome. -/
theorem filter_flag_iff_sample : ∃ tr,
    IsRun (fun st lbl st' => searching.turn st lbl = some st')
      (start sampleEntries (opened (some "ann"))) tr ∧
    (∀ tr₁ tr₂, tr = tr₁ ++ tr₂ → FlagRight
      (collect ended (start sampleEntries (opened (some "ann"))) tr₁)
      (final (start sampleEntries (opened (some "ann"))) tr₁).loc) ∧
    (final (start sampleEntries (opened (some "ann"))) tr).loc.isFiltered = true := by
  obtain ⟨tr, htr, hend⟩ :
      ∃ tr ∈ play searching.turn (openScreen ++ searchRome ++ [.deliver 0 true none])
        (start sampleEntries (opened (some "ann"))),
        Meets EndsTruthful (start sampleEntries (opened (some "ann"))) tr ∧
        (final (start sampleEntries (opened (some "ann"))) tr).loc.isFiltered = true := by
    decide +kernel
  have hrun := isRun_of_play htr
  exact ⟨tr, hrun, (filter_flag_iff hrun).mpr hend.1, hend.2⟩

/-- Ann clears the text before the entries of Rome are there: they are shown, and the flag says that
all entries are. -/
theorem flag_lies : ∃ tr,
    IsRun (fun st lbl st' => searching.turn st lbl = some st')
      (start sampleEntries (opened (some "ann"))) tr ∧
    ((collect ended (start sampleEntries (opened (some "ann"))) tr).getLast?.map Prod.fst) =
      some "Rome" ∧
    (final (start sampleEntries (opened (some "ann"))) tr).loc.entries.map Entry.entryId = ["a"] ∧
    (final (start sampleEntries (opened (some "ann"))) tr).loc.isFiltered = false := by
  obtain ⟨tr, htr, hend⟩ :
      ∃ tr ∈ play searching.turn
        (openScreen ++ searchRome ++ [.event (.textDidChange ""), .deliver 0 true none])
        (start sampleEntries (opened (some "ann"))),
        ((collect ended (start sampleEntries (opened (some "ann"))) tr).getLast?.map Prod.fst) =
          some "Rome" ∧
        (final (start sampleEntries (opened (some "ann"))) tr).loc.entries.map Entry.entryId =
          ["a"] ∧
        (final (start sampleEntries (opened (some "ann"))) tr).loc.isFiltered = false := by
    decide +kernel
  exact ⟨tr, isRun_of_play htr, hend⟩

end Explore

end Wanderlust
