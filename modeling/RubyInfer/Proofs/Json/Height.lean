import RubyInfer.Json.Basic

/-!
# What a value holds nests less deeply than the value
-/

namespace RubyInfer.Json

variable {fields : List (String × Json)}

theorem height_le_of_mem {items : List Json} {v : Json} (mem : v ∈ items) : v.height ≤ heightItems items := by
  induction items with
  | nil => cases mem
  | cons w rest ih =>
    simp only [heightItems]
    cases mem with
    | head => omega
    | tail _ mem =>
      have := ih mem
      omega

theorem height_le_of_field {f : String × Json} (mem : f ∈ fields) : f.2.height ≤ heightFields fields := by
  induction fields with
  | nil => cases mem
  | cons g rest ih =>
    simp only [heightFields]
    cases mem with
    | head => omega
    | tail _ mem =>
      have := ih mem
      omega

theorem height_le_of_lookup {key : String} {v : Json} (found : fields.lookup key = some v) :
    v.height ≤ heightFields fields := by
  obtain ⟨before, after, split, -⟩ := List.lookup_eq_some_iff.1 found
  exact height_le_of_field (f := (key, v)) (by simp [split])

theorem height_lt_of_item {key : String} {items : List Json}
    (found : fields.lookup key = some (.array items)) {v : Json}
    (mem : v ∈ items) : v.height < heightFields fields := by
  have whole := height_le_of_lookup found
  have part := height_le_of_mem mem
  simp only [height] at whole
  omega

end RubyInfer.Json
