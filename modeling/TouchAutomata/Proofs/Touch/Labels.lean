import TouchAutomata.Touch.Encoding

/-!
# Labels as texts of touches

A text is the label of the touch that is made of its pieces between colons
(`toList_label_ofPieces`), and of no other touch that is made of pieces. To read a text is to take
one colon from its end, if it has one, and then its pieces (`ofEncoding_eq`). So touches that were
read are the same letter when their cores and their attributes are the same
(`alike_ofEncoding_iff_parts`), and what is read from a label is the touch with this label, unless
the label ends in a colon (`ofEncoding_label_iff`).
-/

set_option autoImplicit false

namespace TouchAutomata.Touch

variable {cs ds : List Char}

/-! ## The pieces of a text -/

/-- The touch whose core and attributes are the pieces of a text between its colons. -/
def ofPieces (cs : List Char) : Touch where
  core := String.ofList (segments cs).1
  attributes := (segments cs).2.map String.ofList

/-- The characters of a label are those of the core and, each behind a colon, of the attributes. -/
theorem toList_label (t : Touch) :
    t.label.toList = t.core.toList ++ t.attributes.flatMap fun v => ':' :: v.toList := by
  simp [label, String.toList_append, String.toList_join, List.flatMap_map]

/-- The pieces of a text, with colons between them, are the text. -/
theorem segments_append_flatMap (cs : List Char) :
    (segments cs).1 ++ (segments cs).2.flatMap (fun v => ':' :: v) = cs := by
  induction cs with
  | nil => rfl
  | cons c cs ih =>
    unfold segments
    split
    · rename_i hc
      rw [List.flatMap_cons, hc, List.nil_append, List.cons_append, ih]
    · rw [List.cons_append, ih]

/-- The pieces are put together again in the label. -/
theorem toList_label_ofPieces (cs : List Char) : (ofPieces cs).label.toList = cs := by
  rw [toList_label, ofPieces, List.flatMap_map, String.toList_ofList]
  simpa using segments_append_flatMap cs

/-- No piece has a colon. -/
theorem colon_not_mem_segments (cs : List Char) :
    ':' ∉ (segments cs).1 ∧ ∀ v ∈ (segments cs).2, ':' ∉ v := by
  induction cs with
  | nil => exact ⟨List.not_mem_nil, fun v hv => absurd hv List.not_mem_nil⟩
  | cons c cs ih =>
    unfold segments
    split
    · refine ⟨List.not_mem_nil, ?_⟩
      intro v hv
      rcases List.mem_cons.1 hv with rfl | hv
      · exact ih.1
      · exact ih.2 v hv
    · rename_i hc
      refine ⟨?_, ih.2⟩
      intro hcolon
      rcases List.mem_cons.1 hcolon with rfl | hcolon
      · exact hc rfl
      · exact ih.1 hcolon

/-- Different texts have different pieces. -/
theorem ofPieces_inj : ofPieces cs = ofPieces ds ↔ cs = ds := by
  constructor
  · intro h
    rw [← toList_label_ofPieces cs, h, toList_label_ofPieces]
  · exact congrArg ofPieces

/-! ## The colon at the end -/

/-- A text without the colon at its end, if it has one. -/
def trimColon (cs : List Char) : List Char :=
  if cs.getLast? = some ':' then cs.dropLast else cs

/-- The last character is a colon exactly if a colon ends the text. -/
theorem getLast?_eq_colon_iff : cs.getLast? = some ':' ↔ [':'] <:+ cs := by
  rw [List.getLast?_eq_some_iff]
  constructor
  · rintro ⟨ds, rfl⟩
    exact ⟨ds, rfl⟩
  · rintro ⟨ds, rfl⟩
    exact ⟨ds, rfl⟩

/-- A colon that is put at the end of a text is the one that is taken away. -/
theorem trimColon_concat (cs : List Char) : trimColon (cs ++ [':']) = cs := by
  simp [trimColon]

/-- A text that does not end in a colon stays as it is. -/
theorem trimColon_of_not_suffix (h : ¬ [':'] <:+ cs) : trimColon cs = cs := by
  rw [trimColon, if_neg (mt getLast?_eq_colon_iff.1 h)]

/-- A text stays as it is exactly if it does not end in a colon. -/
theorem trimColon_eq_self_iff : trimColon cs = cs ↔ ¬ [':'] <:+ cs := by
  constructor
  · rintro h ⟨ds, rfl⟩
    rw [trimColon_concat] at h
    simpa using congrArg List.length h
  · exact trimColon_of_not_suffix

/-- A colon is left at the end of the texts that end in two. -/
theorem suffix_trimColon_iff : [':'] <:+ trimColon cs ↔ [':', ':'] <:+ cs := by
  by_cases h : [':'] <:+ cs
  · obtain ⟨ds, rfl⟩ := h
    rw [trimColon_concat]
    constructor
    · rintro ⟨es, rfl⟩
      exact ⟨es, by simp⟩
    · rintro ⟨es, hes⟩
      rw [List.append_cons] at hes
      exact ⟨es, List.append_cancel_right hes⟩
  · rw [trimColon_of_not_suffix h]
    constructor
    · exact fun hone => absurd hone h
    · exact fun htwo => absurd ((List.suffix_append [':'] [':']).trans htwo) h

/-- A colon at the end brings an empty piece. -/
theorem segments_concat_colon (cs : List Char) :
    segments (cs ++ [':']) = ((segments cs).1, (segments cs).2 ++ [[]]) := by
  induction cs with
  | nil => rfl
  | cons c cs ih =>
    rw [List.cons_append]
    unfold segments
    rw [ih]
    split <;> rfl

/-- To read a text is to drop the colon at its end and to take the pieces. -/
theorem ofEncoding_eq (s : String) : ofEncoding s = ofPieces (trimColon s.toList) := by
  unfold ofEncoding coreOf attributesOf
  by_cases h : [':'] <:+ s.toList
  · obtain ⟨cs, hcs⟩ := h
    rw [← hcs, trimColon_concat, segments_concat_colon]
    simp [ofPieces]
  · rw [trimColon_of_not_suffix h]
    simp [ofPieces, mt getLast?_eq_colon_iff.1 h]

/-- The label of what is read from a text is the text without the colon at its end. -/
theorem toList_label_ofEncoding (s : String) :
    (ofEncoding s).label.toList = trimColon s.toList := by
  rw [ofEncoding_eq, toList_label_ofPieces]

/-- A text is its own label exactly if it does not end in a colon. -/
theorem label_ofEncoding_eq_iff (s : String) :
    (ofEncoding s).label = s ↔ ¬ [':'] <:+ s.toList := by
  rw [← String.toList_inj, toList_label_ofEncoding, trimColon_eq_self_iff]

/-! ## The same letter -/

/-- The parts of a touch that was read have no colon. -/
theorem colon_not_mem_ofEncoding (s : String) :
    ':' ∉ (ofEncoding s).core.toList ∧ ∀ v ∈ (ofEncoding s).attributes, ':' ∉ v.toList := by
  rw [ofEncoding_eq]
  obtain ⟨hcore, hattributes⟩ := colon_not_mem_segments (trimColon s.toList)
  constructor
  · simpa [ofPieces] using hcore
  · intro v hv
    obtain ⟨ds, hds, rfl⟩ := List.mem_map.1 hv
    simpa using hattributes ds hds

/-- Touches that were read are the same letter exactly if their texts are the same without the colon
at the end of each. -/
theorem alike_ofEncoding_iff_trimColon (s u : String) :
    (ofEncoding s).alike (ofEncoding u) = true ↔ trimColon s.toList = trimColon u.toList := by
  rw [alike, decide_eq_true_eq, ← String.toList_inj, toList_label_ofEncoding,
    toList_label_ofEncoding]

/-- The label of what was read can be taken apart in one way only. -/
theorem alike_ofEncoding_iff (s u : String) :
    (ofEncoding s).alike (ofEncoding u) = true ↔
      (ofEncoding s).core = (ofEncoding u).core ∧
      (ofEncoding s).attributes = (ofEncoding u).attributes := by
  rw [alike_ofEncoding_iff_trimColon, ← ofPieces_inj, ← ofEncoding_eq, ← ofEncoding_eq]
  simp [ofEncoding]

/-- The label of what is read from a text is the text without one colon at its end, if it has one.
The parts have no colon, and two touches that were read are the same letter exactly when their parts
are the same, which is when the texts are the same without one colon at the end of each. -/
theorem alike_ofEncoding_iff_parts (s u : String) :
    (ofEncoding s).label = String.ofList (trimColon s.toList) ∧
    ':' ∉ (ofEncoding s).core.toList ∧
    (∀ v ∈ (ofEncoding s).attributes, ':' ∉ v.toList) ∧
    ((ofEncoding s).alike (ofEncoding u) = true ↔
      (ofEncoding s).core = (ofEncoding u).core ∧
      (ofEncoding s).attributes = (ofEncoding u).attributes) ∧
    ((ofEncoding s).alike (ofEncoding u) = true ↔
      trimColon s.toList = trimColon u.toList) := by
  obtain ⟨hcore, hattributes⟩ := colon_not_mem_ofEncoding s
  refine ⟨?_, hcore, hattributes, alike_ofEncoding_iff s u, alike_ofEncoding_iff_trimColon s u⟩
  rw [← String.toList_inj, toList_label_ofEncoding, String.toList_ofList]

/-- An attribute that is empty, one that is not, and a colon at the end that begins none. -/
theorem alike_ofEncoding_iff_parts_red :
    "red" ∈ (ofEncoding "D5::red:").attributes ∧ ':' ∉ "red".toList ∧
    (ofEncoding "D5::red:").label = "D5::red" ∧
    (ofEncoding "D5::red:").alike (ofEncoding "D5::red") = true := by
  have hred : "red" ∈ (ofEncoding "D5::red:").attributes := by decide +kernel
  obtain ⟨hlabel, -, hattributes, -, hsame⟩ := alike_ofEncoding_iff_parts "D5::red:" "D5::red"
  exact ⟨hred, hattributes "red" hred, hlabel, hsame.2 rfl⟩

/-! ## Labels read again -/

/-- What is read from the label of a touch that was read is the same letter, and is the same touch
with all its attributes, exactly when the text did not end in two colons. -/
theorem ofEncoding_label_iff (s : String) :
    ((ofEncoding (ofEncoding s).label).alike (ofEncoding s) = true ↔ ¬ [':', ':'] <:+ s.toList) ∧
    (ofEncoding (ofEncoding s).label = ofEncoding s ↔ ¬ [':', ':'] <:+ s.toList) := by
  constructor
  · rw [alike, decide_eq_true_eq, label_ofEncoding_eq_iff, toList_label_ofEncoding,
      suffix_trimColon_iff]
  · rw [ofEncoding_eq (ofEncoding s).label, toList_label_ofEncoding, ofEncoding_eq s, ofPieces_inj,
      trimColon_eq_self_iff, suffix_trimColon_iff]

/-- One of two colons at the end stays in the label, and is lost when the label is read. -/
theorem empty_attribute_lost :
    ¬ ((ofEncoding (ofEncoding "D5::").label).alike (ofEncoding "D5::") = true ∧
      (ofEncoding (ofEncoding "D5::").label).attributes = (ofEncoding "D5::").attributes) := by
  decide +kernel

end TouchAutomata.Touch
