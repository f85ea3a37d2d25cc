import Mathlib

namespace Library.Layers

variable {P C : Type*}

/-- A layer gives colors to some points. -/
abbrev Layer (P C : Type*) := P → Option C

/-- The layers are laid over the picture, the last one on top. -/
def paint (old : P → C) (layers : List (Layer P C)) : P → C := fun p =>
  layers.foldl (fun color layer => (layer p).getD color) (old p)

variable {old old' : P → C} {l l' : Layer P C} {layers layers' above : List (Layer P C)} {p : P}
  {c : C}

@[simp] theorem paint_nil (old : P → C) : paint old [] = old := rfl

@[simp] theorem paint_cons (old : P → C) (l : Layer P C) (layers : List (Layer P C)) :
    paint old (l :: layers) = paint (fun p => (l p).getD (old p)) layers := rfl

/-- What is under the layers matters at the point alone. -/
theorem paint_congr (h : old p = old' p) (layers : List (Layer P C)) :
    paint old layers p = paint old' layers p := by
  simp only [paint, h]

/-- A picture that has the first layer already. -/
theorem paint_next (h : old' p = (l p).getD (old p)) (layers : List (Layer P C)) :
    paint old' layers p = paint old (l :: layers) p := by
  rw [paint_cons]
  exact paint_congr h layers

/-- No layer covers the point. -/
def Clear (layers : List (Layer P C)) (p : P) : Prop := ∀ l ∈ layers, l p = none

theorem Clear.append (h : Clear layers p) (h' : Clear above p) : Clear (layers ++ above) p := by
  intro l hl
  rcases List.mem_append.mp hl with hmem | hmem
  · exact h l hmem
  · exact h' l hmem

theorem paint_clear (h : Clear layers p) : paint old layers p = old p := by
  induction layers generalizing old with
  | nil => rfl
  | cons l layers ih =>
    rw [paint_cons, ih fun l' hl' => h l' (List.mem_cons_of_mem l hl')]
    simp [h l List.mem_cons_self]

/-- All layers that cover the point agree. -/
theorem paint_agree (h : ∀ l ∈ layers, l p = none ∨ l p = some c) (hex : ∃ l ∈ layers, l p = some c) :
    paint old layers p = c := by
  induction layers generalizing old with
  | nil =>
    obtain ⟨l, hl, -⟩ := hex
    cases hl
  | cons l layers ih =>
    rw [paint_cons]
    by_cases hrest : ∃ l' ∈ layers, l' p = some c
    · exact ih (fun l' hl' => h l' (List.mem_cons_of_mem l hl')) hrest
    · have hclear : Clear layers p := by
        intro l' hl'
        rcases h l' (List.mem_cons_of_mem l hl') with hn | hs
        · exact hn
        · exact absurd ⟨l', hl', hs⟩ hrest
      obtain ⟨l', hl', hs⟩ := hex
      rcases List.mem_cons.mp hl' with rfl | hmem
      · rw [paint_clear hclear]
        simp [hs]
      · exact absurd ⟨l', hmem, hs⟩ hrest

end Library.Layers
