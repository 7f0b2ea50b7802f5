/-!
# Lines

A line feed ends a line. What stands behind the last line feed of a text is no line of it.
-/

set_option autoImplicit false

namespace TouchAutomata.Text

variable {line : List Char}

/-- The lines of a text, and what stands behind them. -/
def splitLines : List Char → List (List Char) × List Char
  | [] => ([], [])
  | c :: cs =>
    if c = '\n' then ([] :: (splitLines cs).1, (splitLines cs).2)
    else
      match splitLines cs with
      | ([], tail) => ([], c :: tail)
      | (line :: lines, tail) => ((c :: line) :: lines, tail)

/-- A line and its end in front of a text make one line more. -/
theorem splitLines_append (h : '\n' ∉ line) (rest : List Char) :
    splitLines (line ++ '\n' :: rest) = (line :: (splitLines rest).1, (splitLines rest).2) := by
  induction line with
  | nil => rfl
  | cons c line ih =>
    rw [List.mem_cons, not_or] at h
    rw [List.cons_append, splitLines, if_neg (Ne.symm h.1), ih h.2]

/-- Lines that are written with their ends are read as these lines, and nothing is left behind
them. -/
theorem splitLines_flatMap {lines : List (List Char)} (h : ∀ line ∈ lines, '\n' ∉ line) :
    splitLines (lines.flatMap (· ++ ['\n'])) = (lines, []) := by
  induction lines with
  | nil => rfl
  | cons line lines ih =>
    rw [List.flatMap_cons, List.append_assoc, List.singleton_append,
      splitLines_append (h line List.mem_cons_self),
      ih fun line hline => h line (List.mem_cons_of_mem _ hline)]

/-- A text has one line feed for each of its lines, and those inside the lines. -/
theorem count_flatMap (lines : List (List Char)) :
    (lines.flatMap (· ++ ['\n'])).count '\n' = lines.length + lines.flatten.count '\n' := by
  induction lines with
  | nil => rfl
  | cons line lines ih =>
    simp only [List.flatMap_cons, List.flatten_cons, List.count_append, ih, List.length_cons,
      List.count_singleton_self]
    omega

/-- There is a line for each line feed. -/
theorem length_splitLines (cs : List Char) : (splitLines cs).1.length = cs.count '\n' := by
  induction cs with
  | nil => rfl
  | cons c cs ih =>
    rw [splitLines, List.count_cons, ← ih]
    by_cases hc : c = '\n'
    · simp [hc]
    · rcases splitLines cs with ⟨_ | ⟨line, lines⟩, tail⟩ <;> simp [hc]

/-- Nothing stands behind the last line of a text that a line feed ends. -/
theorem snd_splitLines_concat (cs : List Char) : (splitLines (cs ++ ['\n'])).2 = [] := by
  induction cs with
  | nil => rfl
  | cons c cs ih =>
    have hlength := length_splitLines (cs ++ ['\n'])
    rw [List.cons_append, splitLines]
    by_cases hc : c = '\n'
    · rw [if_pos hc]
      exact ih
    · rw [if_neg hc]
      rcases hcs : splitLines (cs ++ ['\n']) with ⟨_ | ⟨line, lines⟩, tail⟩
      · simp [hcs] at hlength
      · simpa [hcs] using ih

end TouchAutomata.Text
