import Mathlib.Data.List.Basic

/-!
# Lists

Facts about lists that the theory of several parts needs: a history that grows at its end, and a
list of pairs that is read as a map.
-/

namespace PeerCall

variable {α β : Type}

/-- An item of a list to which one more has been added is the new one, or stood there before. -/
theorem concat_eq_split {items before after : List α} {last x : α}
    (h : items ++ [last] = before ++ x :: after) :
    (before = items ∧ x = last) ∨ ∃ rest, items = before ++ x :: rest := by
  rcases after.eq_nil_or_concat with rfl | ⟨rest, other, rfl⟩
  · obtain ⟨rfl, hlast⟩ := List.append_inj' h rfl
    exact Or.inl ⟨rfl, (List.cons.inj hlast).1.symm⟩
  · have hbefore : items ++ [last] = (before ++ x :: rest) ++ [other] := by simpa using h
    exact Or.inr ⟨rest, (List.append_inj' hbefore rfl).1⟩

/-- A map of which some keys are kept has the same values under them, and no others. -/
theorem lookup_filter_key [BEq α] [LawfulBEq α] (keep : α → Bool) (key : α)
    (pairs : List (α × β)) :
    (pairs.filter fun pair => keep pair.1).lookup key =
      if keep key then pairs.lookup key else none := by
  induction pairs with
  | nil => simp
  | cons first rest ih =>
    obtain ⟨other, value⟩ := first
    by_cases hkey : key = other
    · subst hkey
      cases hkeep : keep key <;> simp [hkeep, ih]
    · have hother : (key == other) = false := beq_eq_false_iff_ne.mpr hkey
      cases hkeep : keep other <;> simp [hkeep, List.lookup_cons, hother, ih]

/-- A map of which each key stands once holds a value under a key if the pair is in it. -/
theorem lookup_eq_some_iff_mem [BEq α] [LawfulBEq α] {key : α} {value : β} {pairs : List (α × β)}
    (hnodup : (pairs.map (·.1)).Nodup) : pairs.lookup key = some value ↔ (key, value) ∈ pairs := by
  induction pairs with
  | nil => simp
  | cons first rest ih =>
    obtain ⟨other, found⟩ := first
    obtain ⟨hnew, hrest⟩ := List.nodup_cons.mp hnodup
    by_cases hkey : key = other
    · subst hkey
      have hnot : (key, value) ∉ rest := fun hmem =>
        hnew (List.mem_map.mpr ⟨(key, value), hmem, rfl⟩)
      simp [hnot, eq_comm]
    · have hother : (key == other) = false := beq_eq_false_iff_ne.mpr hkey
      simp [List.lookup_cons, hother, hkey, ih hrest]

end PeerCall
