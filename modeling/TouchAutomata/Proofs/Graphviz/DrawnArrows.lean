import TouchAutomata.Graphviz.Reader
import TouchAutomata.Proofs.Text.Numerals

/-!
# What a drawing tells

A label ends at the first quote that has no backslash of its own in front (`unescape_eq_some_iff`),
and an escaped label has no such quote (`spells_escape`). So the statement of an edge is read as the
edge whatever text follows it (`readArrow_statement`), and a drawing is read as the edges of the
automaton in their order (`read_ofAutomaton`).
-/

set_option autoImplicit false

namespace TouchAutomata.Graphviz

variable {rest : List Char} {c : Char}

/-! ## Labels -/

/-- How the characters of a label may stand in front of its closing quote. -/
inductive Spells : List Char → List Char → Prop
  | nil : Spells [] []
  | plain {c : Char} {text label : List Char} : ¬(c = '\\' ∨ c = '"') → Spells text label →
      Spells (c :: text) (c :: label)
  | marked {c : Char} {text label : List Char} : c = '\\' ∨ c = '"' → Spells text label →
      Spells ('\\' :: c :: text) (c :: label)

/-- A label ends at a quote. -/
theorem unescape_quote (cs : List Char) : unescape ('"' :: cs) = some ([], cs) := by
  rw [unescape.eq_def]
  rfl

/-- A backslash marks the character behind it as part of the label. -/
theorem unescape_marked (h : c = '\\' ∨ c = '"') (cs : List Char) :
    unescape ('\\' :: c :: cs) = (unescape cs).map fun (label, rest) => (c :: label, rest) := by
  rw [unescape]
  simp [h]

/-- Other characters stand for themselves. -/
theorem unescape_plain (h : ¬(c = '\\' ∨ c = '"')) (cs : List Char) :
    unescape (c :: cs) = (unescape cs).map fun (label, rest) => (c :: label, rest) := by
  push Not at h
  rw [unescape.eq_def]
  simp [h.1, h.2]

/-- No character of a label ends it. -/
theorem spells_escape (label : List Char) : Spells (escape label) label := by
  induction label with
  | nil => exact .nil
  | cons c label ih =>
    rw [escape]
    split_ifs with hmarked
    · exact .marked hmarked ih
    · exact .plain hmarked ih

/-- What spells a label is read as the label, up to the closing quote. -/
theorem Spells.unescape_append {text label : List Char} (h : Spells text label)
    (rest : List Char) : unescape (text ++ '"' :: rest) = some (label, rest) := by
  induction h with
  | nil => exact unescape_quote rest
  | plain hc _ ih => rw [List.cons_append, unescape_plain hc, ih, Option.map_some]
  | marked hc _ ih =>
    rw [List.cons_append, List.cons_append, unescape_marked hc, ih, Option.map_some]

/-- What stands in front of the closing quote spells the label, and nothing else is read. -/
theorem unescape_eq_some_iff {cs label rest : List Char} :
    unescape cs = some (label, rest) ↔ ∃ text, Spells text label ∧ cs = text ++ '"' :: rest := by
  constructor
  · intro h
    fun_induction unescape cs generalizing label with
    | case1 => exact nomatch h
    | case2 cs =>
      obtain ⟨rfl, rfl⟩ := Prod.mk.inj (Option.some.inj h)
      exact ⟨[], .nil, rfl⟩
    | case3 c cs hmarked _ ih =>
      obtain ⟨⟨tail, _⟩, hread, ⟨rfl, rfl⟩⟩ := Option.map_eq_some_iff.1 h
      obtain ⟨text, hspells, rfl⟩ := ih hread
      exact ⟨'\\' :: c :: text, .marked hmarked hspells, rfl⟩
    | case4 => exact nomatch h
    | case5 => exact nomatch h
    | case6 c cs hquote hbackslash ih =>
      obtain ⟨⟨tail, _⟩, hread, ⟨rfl, rfl⟩⟩ := Option.map_eq_some_iff.1 h
      obtain ⟨text, hspells, rfl⟩ := ih hread
      exact ⟨c :: text, .plain (not_or.2 ⟨hbackslash, hquote⟩) hspells, rfl⟩
  · rintro ⟨text, hspells, rfl⟩
    exact hspells.unescape_append rest

/-! ## Statements -/

/-- A text that is expected is passed over. -/
theorem skip_append (expected rest : List Char) : skip expected (expected ++ rest) = some rest := by
  induction expected with
  | nil => rfl
  | cons c expected ih => rw [List.cons_append, skip, if_pos rfl, ih]

/-- The digits of a state are read as this state, up to what is no digit. -/
theorem readState_toString (s : StateId) (stop : ∀ c ∈ rest.head?, c.isDigit = false) :
    readState ((toString s).toList ++ rest) = some (s, rest) := by
  have hnumber := Numeral.readNat_toString_word s
  have hdigits := (Numeral.readNat_eq_some_iff.1 hnumber).2.1
  have hword : Numeral.word? s.toNat = some s := Numeral.word?_toNat s
  rw [readState, span_append_of_stop hdigits stop]
  dsimp only
  rw [hnumber, Option.bind_eq_bind, Option.bind_some, hword, Option.bind_eq_bind, Option.bind_some]

/-- The line of an arrow, without its end. -/
def Arrow.line (arrow : Arrow) : String :=
  "\t" ++ toString arrow.source ++ " -> " ++ toString arrow.target ++
    " [label=" ++ quotedLabel arrow.label ++ "]"

/-- The statement of an edge is the line of its arrow. -/
theorem statement_eq (e : Edge) : statement e = (Arrow.ofEdge e).line ++ "\n" := by
  simp only [statement, Arrow.line, Arrow.ofEdge, String.append_assoc]
  rfl

/-- The characters of a line, part by part as the reader meets them. -/
theorem toList_line (arrow : Arrow) : arrow.line.toList =
    '\t' :: ((toString arrow.source).toList ++ (" -> ".toList ++ ((toString arrow.target).toList ++
      (" [label=\"".toList ++ (escape arrow.label.toList ++ "\"]".toList))))) := by
  simp [Arrow.line, quotedLabel]

/-- The statement of an edge is read as what it shows of the edge, and nothing behind it. -/
theorem readArrow_statement (e : Edge) (rest : List Char) :
    readArrow ((statement e).toList ++ rest) = some (.ofEdge e, rest) := by
  have htext : (statement e).toList ++ rest =
      ['\t'] ++ ((toString e.source).toList ++ (" -> ".toList ++ ((toString e.target).toList ++
        (" [label=\"".toList ++ (escape e.label.toList ++ '"' :: ("]\n".toList ++ rest)))))) := by
    simp [statement_eq, toList_line, Arrow.ofEdge]
  rw [htext, readArrow, skip_append, Option.bind_eq_bind, Option.bind_some,
    readState_toString e.source (by simp)]
  simp only [Option.bind_eq_bind, Option.bind_some, skip_append]
  rw [readState_toString e.target (by simp)]
  simp only [Option.bind_some, skip_append, (spells_escape _).unescape_append,
    String.ofList_toList]
  rfl

/-! ## Drawings -/

/-- The statements are read one after the other up to the closing line, which none of them begins
like. Each of them takes characters, so that their length is enough for the count. -/
theorem readArrows_statements (es : List Edge) (count : Nat)
    (room : (es.flatMap fun e => (statement e).toList).length < count) :
    readArrows count ((es.flatMap fun e => (statement e).toList) ++ closing.toList) =
      some (es.map Arrow.ofEdge) := by
  induction es generalizing count with
  | nil =>
    obtain ⟨n, rfl⟩ := Nat.exists_eq_succ_of_ne_zero (Nat.ne_zero_of_lt room)
    rfl
  | cons e es ih =>
    obtain ⟨n, rfl⟩ := Nat.exists_eq_succ_of_ne_zero (Nat.ne_zero_of_lt room)
    obtain ⟨cs, hcs⟩ : ∃ cs, (statement e).toList = '\t' :: cs := by
      rw [statement_eq, String.toList_append, toList_line, List.cons_append]
      exact ⟨_, rfl⟩
    have hopen : ∀ rest, (statement e).toList ++ rest ≠ closing.toList := by
      simp [hcs, closing]
    rw [List.flatMap_cons, List.length_append, hcs, List.length_cons] at room
    rw [List.flatMap_cons, List.append_assoc, readArrows, if_neg (hopen _), readArrow_statement]
    dsimp only
    rw [ih n (by omega), Option.map_some, List.map_cons]

/-- The characters of a drawing are those of its statements, between opening and closing. -/
theorem toList_ofAutomaton (a : Automaton) :
    (ofAutomaton a).toList =
      opening.toList ++ ((a.edges.flatMap fun e => (statement e).toList) ++ closing.toList) := by
  simp [ofAutomaton, List.flatMap_map]

/-- A drawing is read as the arrows of the edges, in their order. -/
theorem read_eq (a : Automaton) : read (ofAutomaton a) = some (a.edges.map Arrow.ofEdge) := by
  rw [read, toList_ofAutomaton, skip_append, Option.bind_some]
  apply readArrows_statements
  rw [List.length_append]
  omega

/-- Automata with the same arrows have the same drawing. -/
theorem ofAutomaton_congr {a b : Automaton}
    (h : b.edges.map Arrow.ofEdge = a.edges.map Arrow.ofEdge) : ofAutomaton b = ofAutomaton a := by
  have hstatements (c : Automaton) : c.edges.map statement =
      (c.edges.map Arrow.ofEdge).map fun arrow => arrow.line ++ "\n" := by
    rw [List.map_map]
    exact List.map_congr_left fun e _ => statement_eq e
  rw [ofAutomaton, hstatements, h, ← hstatements, ofAutomaton]

/-- A drawing is read as the ends and labels of the edges, in their order. So two automata have the
same drawing only if they agree in these, and no label ends its statement early or adds another:
behind the statement of any edge the reader is where the next text begins. -/
theorem read_ofAutomaton (a : Automaton) :
    read (ofAutomaton a) = some (a.edges.map Arrow.ofEdge) ∧
    (∀ b, ofAutomaton b = ofAutomaton a ↔ b.edges.map Arrow.ofEdge = a.edges.map Arrow.ofEdge) ∧
    (∀ e rest, readArrow ((statement e).toList ++ rest) = some (.ofEdge e, rest)) := by
  refine ⟨read_eq a, fun b => ⟨fun h => ?_, ofAutomaton_congr⟩, readArrow_statement⟩
  have hread : read (ofAutomaton b) = read (ofAutomaton a) := congrArg read h
  rw [read_eq, read_eq] at hread
  exact Option.some.inj hread

end TouchAutomata.Graphviz
