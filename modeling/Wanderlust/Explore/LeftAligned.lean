import Mathlib.Algebra.Order.Ring.Abs
import Mathlib.Algebra.Order.Ring.Rat
import Mathlib.Tactic.Linarith
import Wanderlust.Foundations.Accumulate

/-!
# The layout of the explore screen

`LeftAlignedCollectionViewFlowLayout` moves the tiles of the flow layout to the left, row by row.
It takes a tile for the first of a row if it begins no higher than the bottoms of all tiles so far;
the others are put one after the other. No two tiles overlap after that
(`layoutAttributesForElements_spec`).

Coordinates are elements of an ordered ring, so there is no rounding.
-/

namespace Wanderlust

structure CGPoint (F : Type*) where
  x : F
  y : F
  deriving DecidableEq

structure CGSize (F : Type*) where
  width : F
  height : F
  deriving DecidableEq

structure CGRect (F : Type*) where
  origin : CGPoint F
  size : CGSize F
  deriving DecidableEq

/-- The attributes of a tile: its frame, and all else that is known of it. -/
structure UICollectionViewLayoutAttributes (F α : Type*) where
  frame : CGRect F
  other : α
  deriving DecidableEq

/-- The layout, with the properties that it reads. -/
structure LeftAlignedCollectionViewFlowLayout (F : Type*) where
  /-- `sectionInset.left`. -/
  sectionInsetLeft : F
  minimumInteritemSpacing : F

/-- The variables of the loop. -/
structure Margin (F : Type*) where
  leftMargin : F
  maxY : F

/-! ## Rectangles -/

namespace CGRect

variable {F : Type*}

/-- The rectangle at another `x`. -/
def setX (r : CGRect F) (x : F) : CGRect F := { r with origin := { r.origin with x := x } }

variable [CommRing F] [LinearOrder F]

/-- `width`. Sizes may be negative. -/
def width (r : CGRect F) : F := |r.size.width|

def minX (r : CGRect F) : F := min r.origin.x (r.origin.x + r.size.width)

def maxX (r : CGRect F) : F := max r.origin.x (r.origin.x + r.size.width)

def minY (r : CGRect F) : F := min r.origin.y (r.origin.y + r.size.height)

def maxY (r : CGRect F) : F := max r.origin.y (r.origin.y + r.size.height)

/-- What the rectangles have in common has an area. -/
def Overlaps (r s : CGRect F) : Prop :=
  max r.minX s.minX < min r.maxX s.maxX ∧ max r.minY s.minY < min r.maxY s.maxY

instance (r s : CGRect F) : Decidable (r.Overlaps s) := inferInstanceAs (Decidable (_ ∧ _))

/-- Neither side is negative. -/
def Proper (r : CGRect F) : Prop := 0 ≤ r.size.width ∧ 0 ≤ r.size.height

instance (r : CGRect F) : Decidable r.Proper := inferInstanceAs (Decidable (_ ∧ _))

section

variable {r s : CGRect F}

/-- A rectangle that begins where another ends does not overlap with it. -/
theorem not_overlaps_of_le (h : r.maxX ≤ s.minX ∨ r.maxY ≤ s.minY) : ¬r.Overlaps s := by
  rintro ⟨hx, hy⟩
  rcases h with h | h
  · exact absurd ((le_max_right _ _).trans_lt (hx.trans_le (min_le_left _ _))) h.not_gt
  · exact absurd ((le_max_right _ _).trans_lt (hy.trans_le (min_le_left _ _))) h.not_gt

variable [IsStrictOrderedRing F]

theorem Proper.width_eq (h : r.Proper) : r.width = r.size.width := abs_of_nonneg h.1

theorem Proper.minX_eq (h : r.Proper) : r.minX = r.origin.x :=
  min_eq_left (le_add_of_nonneg_right h.1)

theorem Proper.maxX_eq (h : r.Proper) : r.maxX = r.origin.x + r.width := by
  rw [h.width_eq]
  exact max_eq_right (le_add_of_nonneg_right h.1)

theorem Proper.minY_eq (h : r.Proper) : r.minY = r.origin.y :=
  min_eq_left (le_add_of_nonneg_right h.2)

end

end CGRect

/-! ## The pass -/

namespace LeftAlignedCollectionViewFlowLayout

variable {F α : Type*} [CommRing F] [LinearOrder F]

variable (layout : LeftAlignedCollectionViewFlowLayout F)

/-- The body of the loop. -/
def forEach (m : Margin F) (layoutAttribute : UICollectionViewLayoutAttributes F α) :
    UICollectionViewLayoutAttributes F α × Margin F :=
  let leftMargin :=
    if layoutAttribute.frame.origin.y ≥ m.maxY then layout.sectionInsetLeft else m.leftMargin
  let layoutAttribute :=
    { layoutAttribute with frame := layoutAttribute.frame.setX leftMargin }
  (layoutAttribute,
    { leftMargin := leftMargin + (layoutAttribute.frame.width + layout.minimumInteritemSpacing)
      maxY := max layoutAttribute.frame.maxY m.maxY })

/-- The variables before the loop. -/
def margin : Margin F := ⟨layout.sectionInsetLeft, -1⟩

/-- `layoutAttributesForElements`, from the attributes that the flow layout has computed. -/
def layoutAttributesForElements
    (attributes : Option (List (UICollectionViewLayoutAttributes F α))) :
    Option (List (UICollectionViewLayoutAttributes F α)) :=
  attributes.map (mapAccum layout.forEach layout.margin)

/-- The loop resets the margin at the element with this index. -/
def Resets (attributes : List (UICollectionViewLayoutAttributes F α)) (i : ℕ) : Prop :=
  ∃ a ∈ attributes[i]?,
    a.frame.origin.y ≥ (accum layout.forEach layout.margin (attributes.take i)).maxY

/-- Nothing but the `x` of the frame has changed. -/
def SameButX (a b : UICollectionViewLayoutAttributes F α) : Prop :=
  b = { a with frame := a.frame.setX b.frame.origin.x }

/-- The rows: the first tile, and each at which the margin has been reset, is at the left, and
each of the others comes `minimumInteritemSpacing` after the end of the one before it. -/
def InRows (attributes placed : List (UICollectionViewLayoutAttributes F α)) : Prop :=
  ∀ i b, placed[i]? = some b →
    (i = 0 ∨ layout.Resets attributes i → b.frame.origin.x = layout.sectionInsetLeft) ∧
      ∀ j a, i = j + 1 → placed[j]? = some a → ¬layout.Resets attributes i →
        b.frame.origin.x = a.frame.maxX + layout.minimumInteritemSpacing

/-- What the variables of the loop have to do with what comes out from then on, where `a` becomes
`b`: it is in a later row, or in this one, and then not before the margin. -/
structure Ahead (m : Margin F) (a b : UICollectionViewLayoutAttributes F α) : Prop where
  proper : b.frame.Proper
  y_eq : b.frame.origin.y = a.frame.origin.y
  below_or : m.maxY ≤ b.frame.origin.y ∨ m.leftMargin ≤ b.frame.origin.x

section

variable {layout} {m : Margin F} {a a' b : UICollectionViewLayoutAttributes F α}
  {attributes : List (UICollectionViewLayoutAttributes F α)}

/-- A pass takes nothing from where the tile is. -/
theorem forEach_forEach (m : Margin F) (a : UICollectionViewLayoutAttributes F α) :
    layout.forEach m (layout.forEach m a).1 = layout.forEach m a := rfl

theorem sameButX_forEach (m : Margin F) (a : UICollectionViewLayoutAttributes F α) :
    SameButX a (layout.forEach m a).1 := rfl

theorem x_of_reset (h : a.frame.origin.y ≥ m.maxY) :
    (layout.forEach m a).1.frame.origin.x = layout.sectionInsetLeft := if_pos h

theorem x_of_not_reset (h : ¬a.frame.origin.y ≥ m.maxY) :
    (layout.forEach m a).1.frame.origin.x = m.leftMargin := if_neg h

/-- The first tile is at the left, with or without a reset. -/
theorem x_margin : (layout.forEach layout.margin a).1.frame.origin.x = layout.sectionInsetLeft := by
  by_cases hreset : a.frame.origin.y ≥ layout.margin.maxY
  · exact x_of_reset hreset
  · exact x_of_not_reset hreset

theorem leftMargin_forEach : (layout.forEach m a).2.leftMargin =
    (layout.forEach m a).1.frame.origin.x +
      ((layout.forEach m a).1.frame.width + layout.minimumInteritemSpacing) := rfl

theorem maxY_forEach : (layout.forEach m a).2.maxY = max a.frame.maxY m.maxY := rfl

theorem ahead_forEach (ha : a.frame.Proper) : Ahead m a (layout.forEach m a).1 where
  proper := ha
  y_eq := rfl
  below_or := by
    by_cases hreset : a.frame.origin.y ≥ m.maxY
    · exact Or.inl hreset
    · exact Or.inr (x_of_not_reset hreset).ge

variable [IsStrictOrderedRing F]

/-- What is ahead after a pass has been ahead before it. -/
theorem Ahead.of_forEach (hspacing : 0 ≤ layout.minimumInteritemSpacing)
    (hy : a.frame.origin.y ≤ a'.frame.origin.y) (h : Ahead (layout.forEach m a).2 a' b) :
    Ahead m a' b where
  proper := h.proper
  y_eq := h.y_eq
  below_or := by
    rcases h.below_or with hbelow | hmargin
    · rw [maxY_forEach] at hbelow
      exact Or.inl ((le_max_right _ _).trans hbelow)
    · by_cases hreset : a.frame.origin.y ≥ m.maxY
      · -- the rows so far end above this one
        rw [h.y_eq]
        exact Or.inl (hreset.le.trans hy)
      · have hwidth : 0 ≤ (layout.forEach m a).1.frame.width := abs_nonneg _
        rw [leftMargin_forEach, x_of_not_reset hreset] at hmargin
        exact Or.inr (by linarith)

/-- A tile does not overlap with what is ahead after it. -/
theorem Ahead.not_overlaps (hspacing : 0 ≤ layout.minimumInteritemSpacing) (ha : a.frame.Proper)
    (h : Ahead (layout.forEach m a).2 a' b) :
    ¬(layout.forEach m a).1.frame.Overlaps b.frame := by
  have hproper : (layout.forEach m a).1.frame.Proper := ha
  apply CGRect.not_overlaps_of_le
  rcases h.below_or with hbelow | hmargin
  · rw [h.proper.minY_eq]
    rw [maxY_forEach] at hbelow
    exact Or.inr ((le_max_left _ _).trans hbelow)
  · rw [h.proper.minX_eq, hproper.maxX_eq]
    rw [leftMargin_forEach] at hmargin
    exact Or.inl (by linarith)

theorem inRows_mapAccum (hproper : ∀ a ∈ attributes, a.frame.Proper) :
    layout.InRows attributes (mapAccum layout.forEach layout.margin attributes) := by
  intro i b hb
  rw [getElem?_mapAccum] at hb
  obtain ⟨b₀, hb₀, rfl⟩ := Option.map_eq_some_iff.mp hb
  constructor
  · rintro (rfl | ⟨b', hb', hreset⟩)
    · exact x_margin
    · obtain rfl : b₀ = b' := Option.some.inj (hb₀.symm.trans hb')
      exact x_of_reset hreset
  · rintro j a rfl ha hreset
    rw [getElem?_mapAccum] at ha
    obtain ⟨a₀, ha₀, rfl⟩ := Option.map_eq_some_iff.mp ha
    have hframe : (layout.forEach (accum layout.forEach layout.margin (attributes.take j))
        a₀).1.frame.Proper := hproper a₀ (List.mem_of_getElem? ha₀)
    have htake : attributes.take (j + 1) = attributes.take j ++ [a₀] := by
      rw [List.take_add_one, ha₀]
      rfl
    rw [x_of_not_reset fun h => hreset ⟨b₀, hb₀, h⟩, htake, accum_append, accum_cons, accum_nil,
      leftMargin_forEach, hframe.maxX_eq, add_assoc]

/-- **The layout** of tiles that come from the top to the bottom: only the `x` of the frames
changes, no two frames overlap, the rows begin at the left and have the spacing between the tiles,
and a second pass changes nothing. -/
theorem layoutAttributesForElements_spec
    (hsorted : attributes.Pairwise fun a b => a.frame.origin.y ≤ b.frame.origin.y)
    (hproper : ∀ a ∈ attributes, a.frame.Proper) (hspacing : 0 ≤ layout.minimumInteritemSpacing) :
    ∃ placed, layout.layoutAttributesForElements (some attributes) = some placed ∧
      List.Forall₂ SameButX attributes placed ∧
      (placed.Pairwise fun a b => ¬a.frame.Overlaps b.frame) ∧
      layout.InRows attributes placed ∧
      layout.layoutAttributesForElements (some placed) = some placed := by
  refine ⟨mapAccum layout.forEach layout.margin attributes, rfl, ?_, ?_, inRows_mapAccum hproper,
    ?_⟩
  · exact forall₂_mapAccum sameButX_forEach _ _
  · exact pairwise_mapAccum (I := Ahead) (fun _ _ => ahead_forEach)
      (fun _ _ _ _ _ => Ahead.of_forEach hspacing)
      (fun _ _ _ _ ha _ => Ahead.not_overlaps hspacing ha) hproper hsorted
  · exact congrArg some (mapAccum_mapAccum forEach_forEach _ _)

end

/-! ## Two rows -/

/-- A layout with a margin and a spacing. -/
def sampleLayout : LeftAlignedCollectionViewFlowLayout ℚ := ⟨1, 1 / 2⟩

/-- The third tile begins above the bottom of the second one, and is in its row. -/
def sampleTiles : List (UICollectionViewLayoutAttributes ℚ ℕ) :=
  [⟨⟨⟨9, 0⟩, ⟨3, 2⟩⟩, 0⟩, ⟨⟨⟨0, 0⟩, ⟨4, 5⟩⟩, 1⟩, ⟨⟨⟨5, 3⟩, ⟨2, 9⟩⟩, 2⟩, ⟨⟨⟨5, 12⟩, ⟨2, 1⟩⟩, 3⟩]

theorem layoutAttributesForElements_spec_sample :
    ∃ placed, sampleLayout.layoutAttributesForElements (some sampleTiles) = some placed ∧
      placed.map (fun a => a.frame.origin.x) = [1, 9 / 2, 9, 1] ∧
      placed.Pairwise fun a b => ¬a.frame.Overlaps b.frame := by
  have hsorted : sampleTiles.Pairwise fun a b => a.frame.origin.y ≤ b.frame.origin.y := by
    decide +kernel
  have hproper : ∀ a ∈ sampleTiles, a.frame.Proper := by decide +kernel
  have hspacing : 0 ≤ sampleLayout.minimumInteritemSpacing := by decide +kernel
  have hx : (sampleLayout.layoutAttributesForElements (some sampleTiles)).map
      (List.map fun a => a.frame.origin.x) = some [1, 9 / 2, 9, 1] := by decide +kernel
  obtain ⟨placed, hplaced, -, hoverlap, -⟩ :=
    layoutAttributesForElements_spec hsorted hproper hspacing
  rw [hplaced] at hx
  exact ⟨placed, hplaced, Option.some.inj hx, hoverlap⟩

end LeftAlignedCollectionViewFlowLayout

end Wanderlust
