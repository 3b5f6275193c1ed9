import Mathlib.Data.List.Forall2

/-!
# Feloxi.Lib.Templates

Templates of lists: a sequence of places, each with what may stand there, or two of them around
anything at all. Two templates are apart if no list fits both, which is decided place by place
from the front and from the back (`not_fits_of_apart`).
-/

namespace Feloxi.Templates

variable {σ α : Type*}

inductive Template (σ : Type*) where
  /-- These places and no others. -/
  | closed (places : List σ)
  /-- These places first, those last, and anything between them. -/
  | around (head tail : List σ)

namespace Template

def Fits (fits : σ → α → Prop) : Template σ → List α → Prop
  | .closed places, l => List.Forall₂ fits places l
  | .around head tail, l => ∃ before middle behind, l = before ++ middle ++ behind ∧
      List.Forall₂ fits head before ∧ List.Forall₂ fits tail behind

/-- The places that are known from the front. -/
def front : Template σ → List σ
  | .closed places => places
  | .around head _ => head

/-- The places that are known from the back, the last one first. -/
def back : Template σ → List σ
  | .closed places => places.reverse
  | .around _ tail => tail.reverse

/-- Some place of the one cannot be filled as the place of the other is. -/
def clash (meets : σ → σ → Bool) : List σ → List σ → Bool
  | a :: s, b :: t => !meets a b || clash meets s t
  | _, _ => false

def lengthsDiffer : Template σ → Template σ → Bool
  | .closed s, .closed t => s.length != t.length
  | _, _ => false

def apart (meets : σ → σ → Bool) (s t : Template σ) : Bool :=
  clash meets s.front t.front || clash meets s.back t.back || lengthsDiffer s t

variable {fits : σ → α → Prop}

theorem Fits.front {t : Template σ} {l : List α} (h : t.Fits fits l) :
    ∃ x, x <+: l ∧ List.Forall₂ fits t.front x := by
  cases t with
  | closed places => exact ⟨l, List.prefix_rfl, h⟩
  | around head tail =>
      obtain ⟨before, middle, behind, rfl, hhead, -⟩ := h
      exact ⟨before, ⟨middle ++ behind, by simp⟩, hhead⟩

theorem Fits.back {t : Template σ} {l : List α} (h : t.Fits fits l) :
    ∃ x, x <+: l.reverse ∧ List.Forall₂ fits t.back x := by
  cases t with
  | closed places => exact ⟨l.reverse, List.prefix_rfl, List.forall₂_reverse_iff.2 h⟩
  | around head tail =>
      obtain ⟨before, middle, behind, rfl, -, htail⟩ := h
      refine ⟨behind.reverse, ?_, List.forall₂_reverse_iff.2 htail⟩
      exact List.reverse_prefix.2 (List.suffix_append _ _)

variable {meets : σ → σ → Bool}

section

variable (hmeets : ∀ a b c, fits a c → fits b c → meets a b = true)
include hmeets

/-- One list fills both sequences as far as they go. -/
theorem clash_eq_false {s t : List σ} {x y l : List α} (hs : List.Forall₂ fits s x)
    (ht : List.Forall₂ fits t y) (hx : x <+: l) (hy : y <+: l) : clash meets s t = false := by
  induction hs generalizing t y l with
  | nil => rfl
  | cons hac _ ih =>
      cases ht with
      | nil => rfl
      | cons hbd ht =>
          obtain ⟨rest, rfl⟩ := hx
          rw [List.cons_append, List.cons_prefix_cons] at hy
          obtain ⟨rfl, hy⟩ := hy
          rw [clash, hmeets _ _ _ hac hbd, ih ht (List.prefix_append _ _) hy]
          rfl

theorem not_fits_of_apart {s t : Template σ} (h : apart meets s t = true) {l : List α}
    (hs : s.Fits fits l) : ¬ t.Fits fits l := by
  intro ht
  obtain ⟨x, hx, hsx⟩ := hs.front
  obtain ⟨y, hy, hty⟩ := ht.front
  obtain ⟨x', hx', hsx'⟩ := hs.back
  obtain ⟨y', hy', hty'⟩ := ht.back
  rw [apart, clash_eq_false hmeets hsx hty hx hy, clash_eq_false hmeets hsx' hty' hx' hy',
    Bool.false_or, Bool.false_or] at h
  cases s with
  | around head tail => cases h
  | closed places =>
      cases t with
      | around head tail => cases h
      | closed places' =>
          -- both have the length of the list
          have hlength : places.length = places'.length :=
            (List.Forall₂.length_eq hs).trans (List.Forall₂.length_eq ht).symm
          simp [lengthsDiffer, hlength] at h

end

end Template

end Feloxi.Templates
