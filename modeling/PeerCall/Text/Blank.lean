/-!
# Blank characters

The characters with the Unicode property `White_Space`, and texts with the blanks at both ends
removed.
-/

namespace PeerCall.Text

/-- The property `White_Space`: twenty-five characters in ten ranges. -/
def isBlank (c : Char) : Bool :=
  let n := c.toNat
  (0x9 ≤ n && n ≤ 0xD) || n == 0x20 || n == 0x85 || n == 0xA0 || n == 0x1680 ||
    (0x2000 ≤ n && n ≤ 0x200A) || n == 0x2028 || n == 0x2029 || n == 0x202F || n == 0x205F ||
    n == 0x3000

/-- Everything but the blanks at the two ends. -/
def trim (cs : List Char) : List Char :=
  ((cs.dropWhile isBlank).reverse.dropWhile isBlank).reverse

/-- A text whose first and last characters are not blank stays as it is. -/
theorem trim_eq_self {cs : List Char} (first : ∀ c ∈ cs.head?, isBlank c = false)
    (last : ∀ c ∈ cs.getLast?, isBlank c = false) : trim cs = cs := by
  have front : cs.dropWhile isBlank = cs := by
    cases cs with
    | nil => rfl
    | cons c rest => simp [List.dropWhile, first c (by simp)]
  have back : cs.reverse.dropWhile isBlank = cs.reverse := by
    cases h : cs.reverse with
    | nil => rfl
    | cons c rest =>
      have hc : cs.getLast? = some c := by
        rw [← List.head?_reverse, h, List.head?_cons]
      simp [List.dropWhile, last c (by simp [hc])]
  simp [trim, front, back]

/-- Blanks that are put around a text are removed with those that it has. -/
theorem trim_surrounded {front back : List Char} (cs : List Char)
    (hfront : ∀ c ∈ front, isBlank c = true) (hback : ∀ c ∈ back, isBlank c = true) :
    trim (front ++ cs ++ back) = trim cs := by
  have hstart : (front ++ cs ++ back).dropWhile isBlank = (cs ++ back).dropWhile isBlank := by
    rw [List.append_assoc, List.dropWhile_append_of_pos hfront]
  have hrest : back.dropWhile isBlank = [] := by
    rw [← List.append_nil back, List.dropWhile_append_of_pos hback, List.dropWhile_nil]
  rw [trim, trim, hstart, List.dropWhile_append]
  split
  · next hblank => rw [hrest, List.isEmpty_iff.mp hblank]
  · rw [List.reverse_append, List.dropWhile_append_of_pos (by simpa using hback)]

end PeerCall.Text
