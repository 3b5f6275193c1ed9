import Mathlib.Data.List.Basic

/-!
# Feloxi.Alerting.Texts

What the texts of a notification are made with: upper case, and the titles of keys
(`crates/alerting/src/channels/mod.rs` and, a second time, `crates/alerting/src/templates.rs`).

The upper case of a character is left open.
-/

namespace Feloxi.Alerting

variable (upper : Char → List Char)

/-- `to_uppercase`. -/
def toUppercase (s : String) : String := String.ofList (s.toList.flatMap upper)

/-- A word of a title. -/
def titleWord : List Char → List Char
  | [] => []
  | f :: rest => upper f ++ rest

/-- Title-case a `snake_case` key for display. -/
def snakeToTitle (s : String) : String :=
  String.ofList ([' '].intercalate ((s.toList.splitOn '_').map (titleWord upper)))

/-- Whatever the upper case of its first character, a longer key has a title. -/
theorem snakeToTitle_ne_empty {s : String} (h : 2 ≤ s.length) : snakeToTitle upper s ≠ "" := by
  have hjoin : ['_'].intercalate (s.toList.splitOn '_') = s.toList := List.intercalate_splitOn '_'
  rw [snakeToTitle, ne_eq, String.ofList_eq_empty_iff]
  rcases hwords : s.toList.splitOn '_' with _ | ⟨w, _ | ⟨w', words⟩⟩
  · exact absurd hwords (List.splitOn_ne_nil '_' s.toList)
  · -- one word, whose second character stays
    rw [hwords, List.intercalate_singleton] at hjoin
    rw [← String.length_toList, ← hjoin] at h
    rcases w with _ | ⟨c, _ | ⟨d, w⟩⟩
    · simp at h
    · simp at h
    · simp [titleWord]
  · simp [List.intercalate_cons_cons]

end Feloxi.Alerting
