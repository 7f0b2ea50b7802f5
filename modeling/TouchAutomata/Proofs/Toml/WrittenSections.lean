import TouchAutomata.Proofs.Toml.WrittenValues

/-!
# Sections that were written

A section is a header and, line by line, keys with their values. A text is read as statements if
this holds wherever it stands in a document (`ReadAs`), so that it is enough to look at the two
kinds of lines (`readAs_header`, `readAs_pair`). Carrying out the statements puts the keys of a
section into a table of its own and leaves the other tables as they are (`foldlM_apply_section`), so
a document is read as the record of its sections (`read_of_sections`).
-/

set_option autoImplicit false

namespace TouchAutomata.Toml

/-! ## What is written -/

-- `all` and no quantifier, which could be decided by way of all the characters there are
/-- A key that needs no quotes. -/
def IsBare (key : String) : Prop := key.toList ≠ [] ∧ key.toList.all isKeyChar = true

instance (key : String) : Decidable (IsBare key) := inferInstanceAs (Decidable (_ ∧ _))

/-- A key, the text of a value, and the value. -/
structure WrittenPair where
  key : String
  text : String
  data : Data
  bare : IsBare key
  stands : StandsFor text data

/-- A section with different keys. -/
structure WrittenSection where
  name : String
  pairs : List WrittenPair
  bare : IsBare name
  distinct : (pairs.map WrittenPair.key).Nodup

namespace WrittenPair

/-- The line of a key. -/
def chars (p : WrittenPair) : List Char :=
  p.key.toList ++ ' ' :: '=' :: ' ' :: (p.text.toList ++ ['\n'])

/-- The statement of a key. -/
def statement (p : WrittenPair) : Statement := .pair [p.key] p.data

/-- The entry of a key in its table. -/
def node (p : WrittenPair) : String × Node := (p.key, .value p.data)

end WrittenPair

namespace WrittenSection

/-- The lines of a section. -/
def chars (s : WrittenSection) : List Char :=
  '[' :: (s.name.toList ++ [']', '\n']) ++ s.pairs.flatMap WrittenPair.chars

/-- The statements of a section, its header first. -/
def statements (s : WrittenSection) : List Statement :=
  .table [s.name] :: s.pairs.map WrittenPair.statement

/-- The table of a section, under its name. -/
def node (s : WrittenSection) : String × Node :=
  (s.name, .table .header (s.pairs.map WrittenPair.node))

/-- The record of a section. -/
def data (s : WrittenSection) : Data := .ofFields (s.pairs.map fun p => (p.key, p.data))

end WrittenSection

variable {key name : String} {cs ds rest : List Char} {c : Char}

/-! ## Keys -/

/-- No character of a key is a blank. -/
theorem isBlank_of_isKeyChar (h : isKeyChar c = true) : isBlank c = false := by
  rw [isBlank, Bool.or_eq_false_iff, decide_eq_false_iff_not, decide_eq_false_iff_not]
  exact ⟨ne_of_test h (by decide), ne_of_test h (by decide)⟩

/-- Nothing is passed over in front of a character that is no blank. -/
theorem skipBlanks_cons (h : isBlank c = false) (cs : List Char) : skipBlanks (c :: cs) = c :: cs :=
  List.dropWhile_cons_of_neg (by simp [h])

/-- A bare key consists of characters of keys. -/
theorem IsBare.isKeyChar (h : IsBare key) : ∀ c ∈ key.toList, isKeyChar c = true :=
  List.all_eq_true.1 h.2

/-- A bare key begins with a character that begins nothing else. -/
theorem IsBare.exists_cons (h : IsBare key) :
    ∃ c cs, key.toList = c :: cs ∧ Toml.isKeyChar c = true := by
  obtain ⟨c, cs, hkey⟩ := List.exists_cons_of_ne_nil h.1
  exact ⟨c, cs, hkey, h.isKeyChar c (by simp [hkey])⟩

/-- The line of a key begins with a character of the key. -/
theorem WrittenPair.exists_cons (p : WrittenPair) :
    ∃ c cs, p.chars = c :: cs ∧ isKeyChar c = true := by
  obtain ⟨c, cs, hkey, hc⟩ := p.bare.exists_cons
  exact ⟨c, _, by rw [chars, hkey, List.cons_append], hc⟩

/-- A bare key is read as far as its characters go. -/
theorem readKey_bare (h : IsBare key) (stop : ∀ c ∈ rest.head?, isKeyChar c = false) :
    readKey (key.toList ++ rest) = some (key, rest) := by
  obtain ⟨c, cs, hkey, hc⟩ := h.exists_cons
  have hspan : (key.toList ++ rest).span isKeyChar = (key.toList, rest) :=
    span_append_of_stop h.isKeyChar stop
  have hname : String.ofList (c :: cs) = key := by rw [← hkey, String.ofList_toList]
  have hquote : c ≠ '"' := ne_of_test hc (by decide)
  have hapostrophe : c ≠ '\'' := ne_of_test hc (by decide)
  rw [hkey, List.cons_append] at hspan ⊢
  rw [readKey, hspan]
  · simp only [hname]
  · simp [hquote]
  · simp [hapostrophe]

/-- A bare key without a dot behind it is a path of one key. -/
theorem readPath_bare (h : IsBare key) (stop : ∀ c ∈ rest.head?, isKeyChar c = false)
    (hrest : skipBlanks rest = c :: cs) (hdot : c ≠ '.') :
    readPath (key.toList ++ rest) = some ([key], c :: cs) := by
  have hskip : skipBlanks (key.toList ++ rest) = key.toList ++ rest := by
    obtain ⟨d, ds, hkey, hd⟩ := h.exists_cons
    rw [hkey, List.cons_append, skipBlanks_cons (isBlank_of_isKeyChar hd)]
  rw [readPath, maxKeys, readKeys, hskip, readKey_bare h stop]
  simp [hrest, hdot]

/-! ## Lines -/

/-- The header of a section is read as the statement of its table. -/
theorem readStatement_header (h : IsBare name) (calls : Nat) (rest : List Char) :
    readStatement calls ('[' :: (name.toList ++ ']' :: rest)) = some (.table [name], rest) := by
  have hpath : readPath (name.toList ++ ']' :: rest) = some ([name], ']' :: rest) :=
    readPath_bare h (by simp [show isKeyChar ']' = false by decide])
      (skipBlanks_cons (by decide) rest) (by decide)
  obtain ⟨c, cs, hname, hc⟩ := h.exists_cons
  rw [hname, List.cons_append] at hpath ⊢
  have hbracket : c ≠ '[' := ne_of_test hc (by decide)
  simp [readStatement, hpath, hbracket]

/-- The line of a key is read as the statement of its value. -/
theorem readStatement_pair (p : WrittenPair) (calls : Nat) (rest : List Char) :
    readStatement (calls + 1) (p.chars ++ rest) = some (p.statement, '\n' :: rest) := by
  have hpath : readPath (p.chars ++ rest) =
      some ([p.key], '=' :: ' ' :: (p.text.toList ++ '\n' :: rest)) := by
    have hskip : skipBlanks (' ' :: '=' :: ' ' :: (p.text.toList ++ '\n' :: rest)) =
        '=' :: ' ' :: (p.text.toList ++ '\n' :: rest) := rfl
    have hread := readPath_bare p.bare (by simp [show isKeyChar ' ' = false by decide]) hskip
      (by decide)
    simpa [WrittenPair.chars] using hread
  have hvalue : skipBlanks (' ' :: (p.text.toList ++ '\n' :: rest)) =
      p.text.toList ++ '\n' :: rest := by
    show skipBlanks (p.text.toList ++ '\n' :: rest) = _
    have hbegins := p.stands.begins
    cases htext : p.text.toList with
    | nil => exact skipBlanks_cons (by decide) rest
    | cons c cs =>
      rw [htext] at hbegins
      exact skipBlanks_cons (hbegins c rfl) _
  obtain ⟨c, cs, hchars, hc⟩ := p.exists_cons
  have hbracket : c ≠ '[' := ne_of_test hc (by decide)
  rw [hchars, List.cons_append] at hpath ⊢
  simp [readStatement, hbracket, hpath, hvalue, p.stands.reads, WrittenPair.statement]

/-! ## Texts of statements -/

/-- A text that is read as statements wherever it stands. -/
structure ReadAs (cs : List Char) (statements : List Statement) : Prop where
  bound : statements.length ≤ cs.length
  reads : ∀ calls rest, readStatements (statements.length + calls + 1) (cs ++ rest) =
    (readStatements (calls + 1) rest).map (statements ++ ·)

/-- The empty text has no statements. -/
theorem ReadAs.nil : ReadAs [] [] where
  bound := Nat.le_refl 0
  reads calls rest := by simp

/-- Two texts one after the other are read as the statements of both. -/
theorem ReadAs.append {ss ts : List Statement} (hcs : ReadAs cs ss) (hds : ReadAs ds ts) :
    ReadAs (cs ++ ds) (ss ++ ts) where
  bound := by
    have := hcs.bound
    have := hds.bound
    simp only [List.length_append]
    omega
  reads calls rest := by
    have hcalls : (ss ++ ts).length + calls + 1 = ss.length + (ts.length + calls) + 1 := by
      rw [List.length_append]
      omega
    rw [hcalls, List.append_assoc, hcs.reads, hds.reads, Option.map_map]
    simp only [Function.comp_def, List.append_assoc]

/-- Texts one after the other are read as the statements of all. -/
theorem ReadAs.flatMap {α : Type} {f : α → List Char} {g : α → List Statement}
    (h : ∀ x, ReadAs (f x) (g x)) (xs : List α) : ReadAs (xs.flatMap f) (xs.flatMap g) := by
  induction xs with
  | nil => exact .nil
  | cons x xs ih => exact (h x).append ih

/-- A line feed in front of statements is passed over. -/
theorem readStatements_lineFeed (calls : Nat) (rest : List Char) :
    readStatements calls ('\n' :: rest) = readStatements calls rest := by
  cases calls with
  | zero => rfl
  | succ calls => simp [readStatements, skipLines]

/-- An empty line has no statement. -/
theorem readAs_lineFeed : ReadAs ['\n'] [] where
  bound := Nat.zero_le _
  reads calls rest := by
    simp [readStatements_lineFeed]

/-- A line is read as its statement if nothing can be skipped in front of it. -/
theorem readAs_line {statement : Statement} (hne : cs ≠ [])
    (hbegins : ∀ rest, skipLines false (cs ++ rest) = some (cs ++ rest))
    (hreads : ∀ calls rest,
      readStatement (calls + 1) (cs ++ rest) = some (statement, '\n' :: rest)) :
    ReadAs cs [statement] where
  bound := List.length_pos_iff.2 hne
  reads calls rest := by
    obtain ⟨c, ds, rfl⟩ := List.exists_cons_of_ne_nil hne
    have hend : endLine false ('\n' :: rest) = some ('\n' :: rest) := rfl
    have hcalls : [statement].length + calls + 1 = calls + 1 + 1 := by
      rw [List.length_singleton]
      omega
    have hbegins := hbegins rest
    have hreads := hreads calls rest
    rw [List.cons_append] at hbegins hreads ⊢
    rw [hcalls, readStatements, hbegins]
    simp only [hreads, hend, readStatements_lineFeed]
    rfl

/-- The line of a header is read as its statement. -/
theorem readAs_header (h : IsBare name) :
    ReadAs ('[' :: (name.toList ++ [']', '\n'])) [.table [name]] := by
  apply readAs_line (List.cons_ne_nil _ _)
  · intro rest
    rfl
  · intro calls rest
    have hread := readStatement_header h (calls + 1) ('\n' :: rest)
    simpa using hread

/-- The line of a key is read as its statement. -/
theorem readAs_pair (p : WrittenPair) : ReadAs p.chars [p.statement] := by
  obtain ⟨c, cs, hchars, hc⟩ := p.exists_cons
  apply readAs_line
  · rw [hchars]
    exact List.cons_ne_nil c cs
  · intro rest
    have hfeed : c ≠ '\n' := ne_of_test hc (by decide)
    have hreturn : c ≠ '\r' := ne_of_test hc (by decide)
    have hcomment : c ≠ '#' := ne_of_test hc (by decide)
    rw [hchars]
    simp [skipLines, hfeed, hreturn, hcomment, isBlank_of_isKeyChar hc]
  · exact fun calls rest => readStatement_pair p calls rest

/-- The lines of a section are read as its statements. -/
theorem readAs_section (s : WrittenSection) : ReadAs s.chars s.statements := by
  have hpairs : ReadAs (s.pairs.flatMap WrittenPair.chars)
      (s.pairs.flatMap fun p => [p.statement]) := .flatMap readAs_pair s.pairs
  rw [← List.map_eq_flatMap] at hpairs
  exact (readAs_header s.bare).append hpairs

/-! ## Tables -/

section Drafts

variable {fields entries : Fields} {f : Option Node → Option Node}

/-- A new key is put behind the others. -/
theorem alter_of_not_mem (h : key ∉ fields.map Prod.fst) :
    Fields.alter key f fields = (f none).map fun node => fields ++ [(key, node)] := by
  induction fields with
  | nil => rfl
  | cons field fields ih =>
    rw [List.map_cons, List.mem_cons, not_or] at h
    rw [Fields.alter, if_neg (Ne.symm h.1), ih h.2, Option.map_map]
    rfl

/-- The last key can be altered without the others. -/
theorem alter_append_self {node : Node} (h : key ∉ fields.map Prod.fst) :
    Fields.alter key f (fields ++ [(key, node)]) =
      (f (some node)).map fun node => fields ++ [(key, node)] := by
  induction fields with
  | nil => simp [Fields.alter]
  | cons field fields ih =>
    rw [List.map_cons, List.mem_cons, not_or] at h
    rw [List.cons_append, Fields.alter, if_neg (Ne.symm h.1), ih h.2, Option.map_map]
    rfl

/-- A header with a new name begins an empty table behind the others. -/
theorem apply_table (h : name ∉ fields.map Prod.fst) (header : List String) :
    Draft.apply ⟨fields, header⟩ (.table [name]) =
      some ⟨fields ++ [(name, .table .header [])], [name]⟩ := by
  simp [Draft.apply, Fields.within, Fields.openTable, alter_of_not_mem h]

/-- A new key is put behind the others of the last table. -/
theorem apply_pair (p : WrittenPair) (hname : name ∉ fields.map Prod.fst)
    (hkey : p.key ∉ entries.map Prod.fst) :
    Draft.apply ⟨fields ++ [(name, .table .header entries)], [name]⟩ p.statement =
      some ⟨fields ++ [(name, .table .header (entries ++ [p.node]))], [name]⟩ := by
  simp [Draft.apply, WrittenPair.statement, WrittenPair.node, Fields.within, Fields.assign,
    alter_append_self hname, alter_of_not_mem hkey]

/-- New keys are put behind the others of the last table, one after the other. -/
theorem foldlM_apply_pairs {ps : List WrittenPair} (hname : name ∉ fields.map Prod.fst)
    (distinct : (entries.map Prod.fst ++ ps.map WrittenPair.key).Nodup) :
    (ps.map WrittenPair.statement).foldlM Draft.apply
        ⟨fields ++ [(name, .table .header entries)], [name]⟩ =
      some ⟨fields ++ [(name, .table .header (entries ++ ps.map WrittenPair.node))], [name]⟩ := by
  induction ps generalizing entries with
  | nil => simp
  | cons p ps ih =>
    have hkey : p.key ∉ entries.map Prod.fst := fun hmem =>
      (List.nodup_append.1 distinct).2.2 p.key hmem p.key List.mem_cons_self rfl
    have hrest : ((entries ++ [p.node]).map Prod.fst ++ ps.map WrittenPair.key).Nodup := by
      simpa [WrittenPair.node] using distinct
    rw [List.map_cons, List.foldlM_cons, apply_pair p hname hkey]
    simpa using ih hrest

/-- A section with a new name becomes a table behind the others. -/
theorem foldlM_apply_section (s : WrittenSection) (h : s.name ∉ fields.map Prod.fst)
    (header : List String) :
    s.statements.foldlM Draft.apply ⟨fields, header⟩ =
      some ⟨fields ++ [s.node], [s.name]⟩ := by
  have hentries : (([] : Fields).map Prod.fst ++ s.pairs.map WrittenPair.key).Nodup := s.distinct
  rw [WrittenSection.statements, List.foldlM_cons, apply_table h]
  exact foldlM_apply_pairs h hentries

/-- Sections with new names become tables behind the others, one after the other. -/
theorem foldlM_apply_sections {ss : List WrittenSection}
    (distinct : (fields.map Prod.fst ++ ss.map WrittenSection.name).Nodup) (header : List String) :
    ∃ header', (ss.flatMap WrittenSection.statements).foldlM Draft.apply ⟨fields, header⟩ =
      some ⟨fields ++ ss.map WrittenSection.node, header'⟩ := by
  induction ss generalizing fields header with
  | nil => exact ⟨header, by simp⟩
  | cons s ss ih =>
    have hname : s.name ∉ fields.map Prod.fst := fun hmem =>
      (List.nodup_append.1 distinct).2.2 s.name hmem s.name List.mem_cons_self rfl
    have hrest : ((fields ++ [s.node]).map Prod.fst ++ ss.map WrittenSection.name).Nodup := by
      simpa [WrittenSection.node] using distinct
    obtain ⟨header', hss⟩ := ih hrest [s.name]
    refine ⟨header', ?_⟩
    rw [List.flatMap_cons, List.foldlM_append, foldlM_apply_section s hname header]
    simpa using hss

end Drafts

/-! ## Documents -/

/-- The entries of a table become the fields of a record, each under its name. -/
theorem fieldsToData_map {α : Type} (name : α → String) (node : α → Node) (xs : List α) :
    fieldsToData (xs.map fun x => (name x, node x)) =
      xs.map fun x => (some (name x), (node x).toData) := by
  induction xs with
  | nil => rfl
  | cons x xs ih => rw [List.map_cons, fieldsToData, ih, List.map_cons]

/-- The table of a section becomes its record. -/
theorem toData_node (s : WrittenSection) : s.node.2.toData = s.data := by
  have hpairs := fieldsToData_map WrittenPair.key (fun p => .value p.data) s.pairs
  rw [WrittenSection.data, Data.ofFields, List.map_map]
  exact congrArg Data.record hpairs

/-- The tables of sections become the record of their records. -/
theorem toData_nodes (ss : List WrittenSection) :
    Fields.toData (ss.map WrittenSection.node) = .ofFields (ss.map fun s => (s.name, s.data)) := by
  have hfields := fieldsToData_map WrittenSection.name (fun s => s.node.2) ss
  simp only [toData_node] at hfields
  rw [Data.ofFields, List.map_map]
  exact congrArg Data.record hfields

/-- The statements of a text are all found, and are carried out one after the other. -/
theorem read_of_readAs {text : String} {statements : List Statement}
    (h : ReadAs ('\n' :: text.toList) statements)
    (hmark : dropByteOrderMark text.toList = text.toList) :
    read text = (statements.foldlM Draft.apply ⟨[], []⟩).map fun draft => draft.fields.toData := by
  obtain ⟨calls, hcalls⟩ : ∃ calls, 2 * text.toList.length + 2 = statements.length + calls + 1 := by
    have := h.bound
    rw [List.length_cons] at this
    exact ⟨2 * text.toList.length + 1 - statements.length, by omega⟩
  have hstatements : readStatements (2 * text.toList.length + 2) text.toList = some statements := by
    have hreads := h.reads calls []
    rw [List.append_nil, ← hcalls, readStatements_lineFeed] at hreads
    simpa [readStatements, skipLines] using hreads
  rw [read, hmark, Option.map_eq_bind]
  simp only [hstatements, Option.bind_eq_bind, Option.bind_some, Function.comp_def]

/-- A document is read as the record of its sections, with a line feed in front of each but the
first. -/
theorem read_of_sections {text : String} {ss : List WrittenSection}
    (htext : '\n' :: text.toList = ss.flatMap fun s => '\n' :: s.chars)
    (distinct : (ss.map WrittenSection.name).Nodup) :
    read text = some (.ofFields (ss.map fun s => (s.name, s.data))) := by
  have hread : ReadAs ('\n' :: text.toList) (ss.flatMap WrittenSection.statements) := by
    rw [htext]
    exact .flatMap (fun s => readAs_lineFeed.append (readAs_section s)) ss
  have hmark : dropByteOrderMark text.toList = text.toList := by
    cases ss with
    | nil => exact nomatch htext
    | cons s ss =>
      rw [(List.cons.inj htext).2]
      rfl
  have hnames : (([] : Fields).map Prod.fst ++ ss.map WrittenSection.name).Nodup := distinct
  obtain ⟨header, hdraft⟩ := foldlM_apply_sections hnames []
  rw [read_of_readAs hread hmark, hdraft, Option.map_some, List.nil_append, toData_nodes]

end TouchAutomata.Toml
