import Mathlib.Data.List.Basic

/-!
# Texts written one after the other

Entries are written one after the other with nothing between them. Where the layout of an entry fixes
how long its text is, and the text then fixes the content, two lists of the same layouts with the same
text have the same contents (`Framing.content_eq`). Without the layouts nothing can be said: the text
does not show where an entry ends.
-/

namespace Systems

variable {E L C B : Type}

/-- The layout of an entry fixes the length of its text, and with the text its content. -/
structure Framing (layout : E → L) (content : E → C) (text : E → List B) : Prop where
  length_eq : ∀ {e e'}, layout e = layout e' → (text e).length = (text e').length
  content_eq : ∀ {e e'}, layout e = layout e' → text e = text e' → content e = content e'
  layout_eq : ∀ {e e'}, content e = content e' → layout e = layout e'

namespace Framing

variable {layout : E → L} {content : E → C} {text : E → List B} (F : Framing layout content text)
include F

/-- **Under one layout the text fixes the contents.** -/
theorem contents_eq {l l' : List E} (hlayout : l.map layout = l'.map layout)
    (htext : l.flatMap text = l'.flatMap text) : l.map content = l'.map content := by
  induction l generalizing l' with
  | nil =>
    cases l' with
    | nil => rfl
    | cons e' l' => cases hlayout
  | cons e l ih =>
    cases l' with
    | nil => cases hlayout
    | cons e' l' =>
      obtain ⟨hhead, htail⟩ := List.cons.inj hlayout
      rw [List.flatMap_cons, List.flatMap_cons] at htext
      obtain ⟨hfirst, hrest⟩ := List.append_inj htext (F.length_eq hhead)
      rw [List.map_cons, List.map_cons, F.content_eq hhead hfirst, ih htail hrest]

/-- Equal contents have equal layouts. -/
theorem layouts_eq {l l' : List E} (h : l.map content = l'.map content) :
    l.map layout = l'.map layout := by
  induction l generalizing l' with
  | nil =>
    cases l' with
    | nil => rfl
    | cons e' l' => cases h
  | cons e l ih =>
    cases l' with
    | nil => cases h
    | cons e' l' =>
      obtain ⟨hhead, htail⟩ := List.cons.inj h
      rw [List.map_cons, List.map_cons, F.layout_eq hhead, ih htail]

/-- **When the text binds the contents**: under one layout, or where the texts differ anyway. -/
theorem binds_iff (l l' : List E) :
    (l.flatMap text = l'.flatMap text → l.map content = l'.map content)
      ↔ l.map layout = l'.map layout ∨ l.flatMap text ≠ l'.flatMap text := by
  constructor
  · intro h
    by_cases htext : l.flatMap text = l'.flatMap text
    · exact Or.inl (F.layouts_eq (h htext))
    · exact Or.inr htext
  · rintro (hlayout | hne) htext
    · exact F.contents_eq hlayout htext
    · exact absurd htext hne

end Framing

end Systems
