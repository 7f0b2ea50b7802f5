import TouchAutomata.Proofs.Graphviz.DrawnArrows
import TouchAutomata.Text.Lines

/-!
# The lines of a drawing

A drawing is made of an opening line, a line for each edge and a closing line. A line feed is the
one character that makes a label break its line: it is not escaped, and each ends a line of its own
(`splitLines_ofAutomaton_iff`).
-/

set_option autoImplicit false

namespace TouchAutomata.Graphviz

open Text (splitLines)

/-- The lines that a drawing is made of, without their ends. -/
def drawnLines (a : Automaton) : List String :=
  "digraph G \x7b" :: a.edges.map (fun e => (Arrow.ofEdge e).line) ++ ["\x7d"]

/-- There are two lines more than edges. -/
theorem length_drawnLines (a : Automaton) : (drawnLines a).length = a.transitionCount + 2 := by
  simp [drawnLines, Automaton.transitionCount]

/-- A drawing consists of these lines, each with its end. -/
theorem toList_eq_flatMap (a : Automaton) :
    (ofAutomaton a).toList = ((drawnLines a).map String.toList).flatMap (· ++ ['\n']) := by
  simp [toList_ofAutomaton, drawnLines, statement_eq, opening, closing, List.flatMap_map]

/-! ## Line feeds -/

/-- To escape a label adds no line feed and takes none away. -/
theorem count_escape (label : List Char) : (escape label).count '\n' = label.count '\n' := by
  induction label with
  | nil => rfl
  | cons c label ih =>
    rw [escape]
    split_ifs with hmarked
    · simp [List.count_cons, ih]
    · simp [List.count_cons, ih]

/-- The digits of a state have no line feed. -/
theorem count_toString (s : StateId) : (toString s).toList.count '\n' = 0 := by
  rw [List.count_eq_zero]
  intro hmem
  have hdigits := (Numeral.readNat_eq_some_iff.1 (Numeral.readNat_repr s.toNat)).2.1
  exact absurd (hdigits '\n' hmem) (by decide)

/-- The label brings all line feeds into the line of an edge. -/
theorem count_line (e : Edge) :
    (Arrow.ofEdge e).line.toList.count '\n' = e.label.toList.count '\n' := by
  simp [toList_line, Arrow.ofEdge, count_escape, count_toString]

/-- How many line feeds there are in the labels. -/
def lineFeeds (a : Automaton) : Nat := (a.edges.flatMap fun e => e.label.toList).count '\n'

/-- There are no line feeds exactly if no label has one. -/
theorem lineFeeds_eq_zero_iff {a : Automaton} :
    lineFeeds a = 0 ↔ ∀ e ∈ a.edges, '\n' ∉ e.label.toList := by
  simp [lineFeeds, List.count_eq_zero]

/-- The lines of some edges have the line feeds of their labels, and no others. -/
theorem count_lines (es : List Edge) :
    (es.flatMap fun e => (Arrow.ofEdge e).line.toList).count '\n' =
      (es.flatMap fun e => e.label.toList).count '\n' := by
  induction es with
  | nil => rw [List.flatMap_nil, List.flatMap_nil]
  | cons e es ih =>
    rw [List.flatMap_cons, List.flatMap_cons, List.count_append, List.count_append, ih, count_line]

/-- All lines of a drawing have the line feeds of the labels. -/
theorem count_drawnLines (a : Automaton) :
    ((drawnLines a).map String.toList).flatten.count '\n' = lineFeeds a := by
  have hends : "digraph G \x7b".toList.count '\n' = 0 ∧ "\x7d".toList.count '\n' = 0 := by decide
  have hlines : ((drawnLines a).map String.toList).flatten = "digraph G \x7b".toList ++
      ((a.edges.flatMap fun e => (Arrow.ofEdge e).line.toList) ++ "\x7d".toList) := by
    simp [drawnLines, List.flatMap, Function.comp_def]
  simp only [hlines, List.count_append, hends, count_lines, lineFeeds, Nat.zero_add, Nat.add_zero]

/-- A drawing has the line feeds that end its lines and those of the labels. -/
theorem count_ofAutomaton (a : Automaton) :
    (ofAutomaton a).toList.count '\n' = a.transitionCount + 2 + lineFeeds a := by
  rw [toList_eq_flatMap, Text.count_flatMap, List.length_map, length_drawnLines, count_drawnLines]

/-! ## Lines -/

/-- If no label has a line feed, no line has one. -/
theorem newline_not_mem_drawnLines {a : Automaton} (h : lineFeeds a = 0) :
    ∀ line ∈ (drawnLines a).map String.toList, '\n' ∉ line := by
  have hlabels := lineFeeds_eq_zero_iff.1 h
  simp only [drawnLines, List.map_append, List.map_cons, List.map_map, List.forall_mem_append,
    List.forall_mem_cons, List.forall_mem_map]
  refine ⟨⟨by decide, fun e he => ?_⟩, by decide, by simp⟩
  rw [Function.comp_apply, ← List.count_eq_zero, count_line, List.count_eq_zero]
  exact hlabels e he

/-- A drawing ends with a line feed, so all of it lies in its lines. -/
theorem snd_splitLines_ofAutomaton (a : Automaton) :
    (splitLines (ofAutomaton a).toList).2 = [] := by
  have hend : (ofAutomaton a).toList =
      opening.toList ++ (a.edges.flatMap fun e => (statement e).toList) ++ ['\x7d'] ++ ['\n'] := by
    simp [toList_ofAutomaton, closing]
  rw [hend, Text.snd_splitLines_concat]

/-- A drawing consists of its opening line, one line for each edge in their order, and its closing
line, exactly when no label has a line feed. In any case it consists of lines, two more than there
are edges and one more for each line feed in a label. -/
theorem splitLines_ofAutomaton_iff (a : Automaton) :
    (splitLines (ofAutomaton a).toList = ((drawnLines a).map String.toList, []) ↔
      ∀ e ∈ a.edges, '\n' ∉ e.label.toList) ∧
    (drawnLines a).length = a.transitionCount + 2 ∧
    (splitLines (ofAutomaton a).toList).1.length = a.transitionCount + 2 + lineFeeds a ∧
    (splitLines (ofAutomaton a).toList).2 = [] := by
  have hlength : (splitLines (ofAutomaton a).toList).1.length =
      a.transitionCount + 2 + lineFeeds a := by
    rw [Text.length_splitLines, count_ofAutomaton]
  refine ⟨?_, length_drawnLines a, hlength, snd_splitLines_ofAutomaton a⟩
  rw [← lineFeeds_eq_zero_iff]
  constructor
  · intro hlines
    rw [hlines, List.length_map, length_drawnLines] at hlength
    omega
  · intro hnone
    rw [toList_eq_flatMap, Text.splitLines_flatMap (newline_not_mem_drawnLines hnone)]

/-- A touch whose attribute has a line feed. -/
def broken : Automaton := (∅ : Automaton).add ⟨1, 2, ⟨"D1", ["a\nb"], ∅⟩⟩

/-- The one edge of `broken` takes two lines, and there are four instead of three. -/
theorem line_feed_breaks_line :
    (splitLines (ofAutomaton broken).toList).1.length ≠ broken.transitionCount + 2 ∧
    (splitLines (ofAutomaton broken).toList).1 = ["digraph G \x7b".toList,
      "\t1 -> 2 [label=\"D1:a".toList, "b\"]".toList, "\x7d".toList] := by
  decide

end TouchAutomata.Graphviz
