import TouchAutomata.Toml.Writer
import Mathlib.Tactic.SplitIfs
import Mathlib.Tactic.Push

/-!
# Strings that were written

A character of a basic string is written as it is, behind a backslash, or by its number, and each
of these is read as the character (`ReadsChars.escapeChar`), on one line and over several. A string
over several lines ends at the first three delimiters in a row: those of its own never stand three
in a row, as quotes since the third has a backslash, as apostrophes since another kind of string is
chosen then. So a string is read back in whatever kind it is written (`readString_writeAs`).
-/

set_option autoImplicit false

namespace TouchAutomata.Toml

variable {multi : Bool} {c q : Char} {cs rest : List Char} {run quotes : Nat}
variable {read : Place → List Char → Option (List Char × List Char)}

/-- No string goes on with what is left of a text. -/
def EndsString (rest : List Char) : Prop := ∀ c ∈ rest.head?, c ≠ '"' ∧ c ≠ '\''

/-! ## Characters -/

/-- A hexadecimal digit is read as its value. -/
theorem hexValue?_upperHexDigit {n : Nat} (h : n < 16) : hexValue? (upperHexDigit n) = some n := by
  have hall : ∀ n < 16, hexValue? (upperHexDigit n) = some n := by decide
  exact hall n h

/-- The numbers of the first characters are all valid. -/
theorem scalar?_of_lt {n : Nat} (h : n < 0x80) : scalar? n = some (Char.ofNat n) := by
  have hvalid : n.isValidChar := .inl (by omega)
  rw [scalar?, dif_pos hvalid, Char.ofNat, dif_pos hvalid]

/-- Control characters are among the first ones. -/
theorem toNat_lt_of_isControl (h : isControl c = true) : c.toNat < 0x80 := by
  simp only [isControl, Bool.or_eq_true, Bool.and_eq_true, decide_eq_true_eq] at h
  rcases h with ⟨hsmall, -⟩ | rfl
  · omega
  · decide

/-- The letters of escapes are none of the blanks and line ends that a backslash may join lines at,
and none that a number follows. -/
theorem not_blank_of_unescape? {d e : Char} (h : unescape? d = some e) :
    isBlank d = false ∧ d ≠ '\n' ∧ d ≠ '\r' ∧ escapeDigits? d = none := by
  unfold unescape? at h
  split at h
  all_goals first | decide | exact nomatch h

/-- How a reader of basic strings reads what a character is written as. -/
structure ReadsChars (multi : Bool)
    (read : Place → List Char → Option (List Char × List Char)) : Prop where
  plain : ∀ c rest, c ≠ '"' → c ≠ '\\' → isControl c = false ∨ multi = true ∧ c = '\n' →
    read .outside (c :: rest) = (read .outside rest).map (consChar c)
  letter : ∀ d e rest, unescape? d = some e →
    read .outside ('\\' :: d :: rest) = (read .outside rest).map (consChar e)
  number : ∀ n rest, n < 0x80 →
    read .outside
        ('\\' :: 'u' :: '0' :: '0' :: upperHexDigit (n / 16) :: upperHexDigit (n % 16) :: rest) =
      (read .outside rest).map (consChar (Char.ofNat n))

/-- The reader of one line reads what characters are written as there. -/
theorem readsChars_readBasic : ReadsChars false readBasic where
  plain c rest hquote hbackslash hcontrol := by
    have hcontrol : isControl c = false := by simpa using hcontrol
    simp [readBasic, hquote, hbackslash, hcontrol]
  letter d e rest h := by
    simp [readBasic, h, (not_blank_of_unescape? h).2.2.2]
  number n rest h := by
    have hzero : hexValue? '0' = some 0 := by decide
    have hu : escapeDigits? 'u' = some 4 := rfl
    have hvalue : 16 * (n / 16) + n % 16 = n := Nat.div_add_mod n 16
    simp [readBasic, hzero, hu, hexValue?_upperHexDigit (show n / 16 < 16 by omega),
      hexValue?_upperHexDigit (show n % 16 < 16 by omega), hvalue, scalar?_of_lt h]

/-- The reader of several lines reads what characters are written as there, and line feeds as they
are. -/
theorem readsChars_readMultiBasic : ReadsChars true readMultiBasic where
  plain c rest hquote hbackslash hcontrol := by
    have hreturn : c ≠ '\r' := by
      rintro rfl
      exact absurd hcontrol (by decide)
    have hcontrol : ¬(isControl c = true ∧ c ≠ '\n') := by
      rcases hcontrol with hcontrol | ⟨-, hfeed⟩
      · simp [hcontrol]
      · exact fun h => h.2 hfeed
    simp only [readMultiBasic]
    simp [hquote, hbackslash, hreturn, hcontrol]
  letter d e rest h := by
    obtain ⟨hblank, hfeed, hreturn, hnumber⟩ := not_blank_of_unescape? h
    simp [readMultiBasic, h, hblank, hfeed, hreturn, hnumber]
  number n rest h := by
    have hzero : hexValue? '0' = some 0 := by decide
    have hu : escapeDigits? 'u' = some 4 := rfl
    have hblank : isBlank 'u' = false := by decide
    have hvalue : 16 * (n / 16) + n % 16 = n := Nat.div_add_mod n 16
    simp [readMultiBasic, hzero, hu, hblank, hexValue?_upperHexDigit (show n / 16 < 16 by omega),
      hexValue?_upperHexDigit (show n % 16 < 16 by omega), hvalue, scalar?_of_lt h]

/-- A written character is read back. -/
theorem ReadsChars.escapeChar (h : ReadsChars multi read) (hquote : c ≠ '"') (rest : List Char) :
    read .outside (escapeChar multi c ++ rest) = (read .outside rest).map (consChar c) := by
  unfold Toml.escapeChar
  split_ifs with hb ht hn hmulti hf hr hbackslash hcontrol
  · subst hb
    exact h.letter 'b' '\x08' rest rfl
  · subst ht
    exact h.letter 't' '\t' rest rfl
  · subst hn
    exact h.plain '\n' rest (by decide) (by decide) (.inr ⟨hmulti, rfl⟩)
  · subst hn
    exact h.letter 'n' '\n' rest rfl
  · subst hf
    exact h.letter 'f' '\x0c' rest rfl
  · subst hr
    exact h.letter 'r' '\r' rest rfl
  · subst hbackslash
    exact h.letter '\\' '\\' rest rfl
  · have hnumber := h.number c.toNat rest (toNat_lt_of_isControl hcontrol)
    rwa [Char.ofNat_toNat] at hnumber
  · exact h.plain c rest hquote hbackslash (.inl (by simpa using hcontrol))

/-! ## What a written string begins with -/

/-- A character is written with a backslash in front, or as it is, which no carriage return is and a
line feed only over several lines. -/
theorem escapeChar_head (multi : Bool) (c : Char) :
    (∃ ds, Toml.escapeChar multi c = '\\' :: ds) ∨
      Toml.escapeChar multi c = [c] ∧ c ≠ '\r' ∧ (c = '\n' → multi = true) := by
  unfold Toml.escapeChar
  split_ifs with hb ht hn hmulti hf hr hbackslash hcontrol
  all_goals first | exact .inl ⟨_, rfl⟩ | skip
  · exact .inr ⟨by rw [hn], by rw [hn]; decide, fun _ => hmulti⟩
  · exact .inr ⟨rfl, hr, fun h => absurd h hn⟩

/-- A quote that is written as it is has fewer than two of them in front, over several lines. -/
theorem escapeBasic_head (h : c = '"' → multi = true → 2 ≤ quotes) :
    ∃ d ds, escapeBasic multi quotes (c :: cs) = d :: ds ∧ d ≠ '"' := by
  by_cases hquote : c = '"'
  · have hescaped : ¬(multi = true ∧ quotes < 2) := fun hraw => by
      have := h hquote hraw.1
      omega
    refine ⟨'\\', '"' :: escapeBasic multi 0 cs, ?_, by decide⟩
    rw [escapeBasic, if_pos hquote, if_neg hescaped]
  · rw [escapeBasic, if_neg hquote]
    rcases escapeChar_head multi c with ⟨ds, hds⟩ | ⟨hds, -⟩
    · exact ⟨'\\', ds ++ escapeBasic multi 0 cs, by rw [hds]; rfl, by decide⟩
    · exact ⟨c, escapeBasic multi 0 cs, by rw [hds]; rfl, hquote⟩

/-- What begins with another character does not begin with two delimiters. -/
theorem beginsTwice_cons {d : Char} (h : d ≠ q) (ds : List Char) :
    beginsTwice q (d :: ds) = false := by
  cases ds <;> simp [beginsTwice, h]

/-- One delimiter in front of another character is not two. -/
theorem beginsTwice_cons_cons {d e : Char} (h : e ≠ q) (ds : List Char) :
    beginsTwice q (d :: e :: ds) = false := by
  simp [beginsTwice, h]

/-- Two delimiters are two whatever follows. -/
theorem beginsTwice_self (q : Char) (ds : List Char) : beginsTwice q (q :: q :: ds) = true := by
  simp [beginsTwice]

/-! ## Basic strings -/

/-- A basic string on one line is read up to its delimiter. -/
theorem readBasic_escapeBasic (cs : List Char) (quotes : Nat) :
    readBasic .outside (escapeBasic false quotes cs ++ '"' :: rest) = some (cs, rest) := by
  induction cs generalizing quotes with
  | nil => simp [escapeBasic, readBasic]
  | cons c cs ih =>
    rw [escapeBasic]
    split_ifs with hquote hraw
    · exact hraw.1.elim
    · rw [List.cons_append, List.cons_append, readsChars_readBasic.letter '"' '"' _ rfl, ih, hquote]
      rfl
    · rw [List.append_assoc, readsChars_readBasic.escapeChar hquote, ih]
      rfl

/-- Up to two delimiters in front of the three that end a string belong to it. -/
theorem closeMulti_replicate {k : Nat} (hk : k ≤ 2) (stop : ∀ c ∈ rest.head?, c ≠ q) :
    closeMulti q (List.replicate k q ++ rest) = (List.replicate k q, rest) := by
  match k, hk with
  | 0, _ =>
    match rest with
    | [] => rfl
    | [c] => simp [closeMulti, stop c rfl]
    | c :: d :: cs => simp [closeMulti, stop c rfl]
  | 1, _ =>
    match rest with
    | [] => simp [closeMulti]
    | c :: cs => simp [closeMulti, stop c rfl]
  | 2, _ => simp [List.replicate, closeMulti]

/-- One more delimiter may as well stand in front of the others. -/
theorem replicate_append_cons (k : Nat) (q : Char) (rest : List Char) :
    List.replicate k q ++ q :: rest = q :: (List.replicate k q ++ rest) := by
  rw [← List.cons_append, ← List.replicate_succ, List.replicate_succ', List.append_assoc]
  rfl

/-- Up to two quotes in front of the closing three are read as part of the string. -/
theorem readMultiBasic_replicate {k : Nat} (hk : k ≤ 2) (stop : ∀ c ∈ rest.head?, c ≠ '"') :
    readMultiBasic .outside (List.replicate k '"' ++ '"' :: '"' :: '"' :: rest) =
      some (List.replicate k '"', rest) := by
  rw [replicate_append_cons, replicate_append_cons, replicate_append_cons]
  simp [readMultiBasic, beginsTwice_self, closeMulti_replicate hk stop]

/-- Up to two quotes in a row are written as they are, over several lines. -/
theorem escapeBasic_replicate {k : Nat} (hk : quotes + k ≤ 2) :
    escapeBasic true quotes (List.replicate k '"') = List.replicate k '"' := by
  induction k generalizing quotes with
  | zero => rfl
  | succ k ih =>
    have hraw : true = true ∧ quotes < 2 := ⟨rfl, by omega⟩
    rw [List.replicate_succ, escapeBasic, if_pos rfl, if_pos hraw, ih (by omega)]

/-- A quote that is written as it is begins the end of the string only if there is nothing but
quotes behind it, and few of them. -/
theorem not_beginsTwice_escapeBasic (hquotes : quotes < 2)
    (hmore : ∀ k, '"' :: cs = List.replicate k '"' → 2 < quotes + k) (rest : List Char) :
    beginsTwice '"' (escapeBasic true (quotes + 1) cs ++ '"' :: rest) = false := by
  cases cs with
  | nil =>
    have := hmore 1 rfl
    omega
  | cons d cs =>
    by_cases hraw : d = '"' ∧ quotes = 0
    · obtain ⟨rfl, rfl⟩ := hraw
      cases cs with
      | nil =>
        have := hmore 2 rfl
        omega
      | cons e cs =>
        obtain ⟨x, xs, hxs, hx⟩ : ∃ x xs, escapeBasic true 2 (e :: cs) = x :: xs ∧ x ≠ '"' :=
          escapeBasic_head fun _ _ => Nat.le_refl 2
        rw [escapeBasic, if_pos rfl, if_pos ⟨rfl, by omega⟩, hxs]
        exact beginsTwice_cons_cons hx _
    · obtain ⟨x, xs, hxs, hx⟩ :
          ∃ x xs, escapeBasic true (quotes + 1) (d :: cs) = x :: xs ∧ x ≠ '"' :=
        escapeBasic_head fun hd _ => by
          have : quotes ≠ 0 := fun h => hraw ⟨hd, h⟩
          omega
      rw [hxs]
      exact beginsTwice_cons hx _

/-- A basic string over several lines is read up to its delimiters. -/
theorem readMultiBasic_escapeBasic (cs : List Char) (quotes : Nat)
    (stop : ∀ c ∈ rest.head?, c ≠ '"') :
    readMultiBasic .outside (escapeBasic true quotes cs ++ '"' :: '"' :: '"' :: rest) =
      some (cs, rest) := by
  induction cs generalizing quotes with
  | nil => exact readMultiBasic_replicate (Nat.zero_le 2) stop
  | cons c cs ih =>
    by_cases hend : ∃ k, c :: cs = List.replicate k '"' ∧ quotes + k ≤ 2
    · obtain ⟨k, hk, hle⟩ := hend
      rw [hk, escapeBasic_replicate hle]
      exact readMultiBasic_replicate (by omega) stop
    · have hmore (k : Nat) (hk : c :: cs = List.replicate k '"') : 2 < quotes + k :=
        Nat.lt_of_not_le fun hle => hend ⟨k, hk, hle⟩
      rw [escapeBasic]
      split_ifs with hquote hraw
      · subst hquote
        have hgoes := not_beginsTwice_escapeBasic hraw.2 hmore ('"' :: '"' :: rest)
        simp [readMultiBasic, hgoes, ih, consChar]
      · rw [List.cons_append, List.cons_append, readsChars_readMultiBasic.letter '"' '"' _ rfl, ih,
          hquote]
        rfl
      · rw [List.append_assoc, readsChars_readMultiBasic.escapeChar hquote, ih]
        rfl

/-! ## Literal strings -/

/-- A literal string on one line is read up to its delimiter. -/
theorem readLiteral_append (plain : ∀ c ∈ cs, isControl c = false ∧ c ≠ '\'') :
    readLiteral (cs ++ '\'' :: rest) = some (cs, rest) := by
  induction cs with
  | nil => simp [readLiteral]
  | cons c cs ih =>
    obtain ⟨⟨hcontrol, hquote⟩, hcs⟩ := List.forall_mem_cons.1 plain
    simp [readLiteral, hquote, hcontrol, ih hcs, consChar]

/-- A run that has begun counts among the longest. -/
theorem le_longestRun (q : Char) (run : Nat) (cs : List Char) : run ≤ longestRun q run cs := by
  induction cs generalizing run with
  | nil => exact Nat.le_refl run
  | cons c cs ih =>
    rw [longestRun]
    split_ifs
    · exact Nat.le_of_succ_le (ih (run + 1))
    · exact Nat.le_max_left run _

/-- Without any run of a character there is none of it. -/
theorem not_mem_of_longestRun (h : longestRun q 0 cs = 0) : q ∉ cs := by
  induction cs with
  | nil => exact List.not_mem_nil
  | cons c cs ih =>
    rw [longestRun] at h
    split_ifs at h with hc
    · have := le_longestRun q (0 + 1) cs
      omega
    · rw [List.mem_cons, not_or]
      exact ⟨Ne.symm hc, ih (by omega)⟩

/-- Without three in a row there are none behind the first character either. -/
theorem longestRun_tail_le (h : longestRun q run (c :: cs) ≤ 2) :
    ∃ run, longestRun q run cs ≤ 2 := by
  rw [longestRun] at h
  split_ifs at h
  · exact ⟨run + 1, h⟩
  · exact ⟨0, by omega⟩

/-- Up to two apostrophes in front of the closing three are read as part of the string. -/
theorem readMultiLiteral_replicate {k : Nat} (hk : k ≤ 2) (stop : ∀ c ∈ rest.head?, c ≠ '\'') :
    readMultiLiteral (List.replicate k '\'' ++ '\'' :: '\'' :: '\'' :: rest) =
      some (List.replicate k '\'', rest) := by
  rw [replicate_append_cons, replicate_append_cons, replicate_append_cons]
  simp [readMultiLiteral, beginsTwice_self, closeMulti_replicate hk stop]

/-- An apostrophe begins the end of a string without three of them in a row only if there is nothing
but apostrophes behind it. -/
theorem not_beginsTwice_of_longestRun (hrun : longestRun q run (q :: cs) ≤ 2)
    (hmore : ∀ k, q :: cs = List.replicate k q → 2 < k) (rest : List Char) :
    beginsTwice q (cs ++ q :: rest) = false := by
  match cs with
  | [] =>
    have := hmore 1 rfl
    omega
  | [d] =>
    have hd : d ≠ q := by
      rintro rfl
      have := hmore 2 rfl
      omega
    exact beginsTwice_cons hd _
  | d :: e :: cs =>
    by_cases hd : d = q
    · have he : e ≠ q := by
        rintro rfl
        rw [hd, longestRun, if_pos rfl, longestRun, if_pos rfl, longestRun, if_pos rfl] at hrun
        have := le_longestRun e (run + 1 + 1 + 1) cs
        omega
      rw [hd]
      exact beginsTwice_cons_cons he _
    · exact beginsTwice_cons hd _

/-- A literal string over several lines is read up to its delimiters. -/
theorem readMultiLiteral_append (plain : ∀ c ∈ cs, isControl c = true → c = '\n')
    (hrun : longestRun '\'' run cs ≤ 2) (stop : ∀ c ∈ rest.head?, c ≠ '\'') :
    readMultiLiteral (cs ++ '\'' :: '\'' :: '\'' :: rest) = some (cs, rest) := by
  induction cs generalizing run with
  | nil => exact readMultiLiteral_replicate (Nat.zero_le 2) stop
  | cons c cs ih =>
    obtain ⟨hplain, hcs⟩ := List.forall_mem_cons.1 plain
    obtain ⟨run', hrun'⟩ := longestRun_tail_le hrun
    by_cases hend : ∃ k, c :: cs = List.replicate k '\'' ∧ k ≤ 2
    · obtain ⟨k, hk, hle⟩ := hend
      rw [hk]
      exact readMultiLiteral_replicate hle stop
    · have hmore (k : Nat) (hk : c :: cs = List.replicate k '\'') : 2 < k :=
        Nat.lt_of_not_le fun hle => hend ⟨k, hk, hle⟩
      by_cases hquote : c = '\''
      · subst hquote
        have hgoes := not_beginsTwice_of_longestRun hrun hmore ('\'' :: '\'' :: rest)
        simp [readMultiLiteral, hgoes, ih hcs hrun', consChar]
      · have hreturn : c ≠ '\r' := by
          rintro rfl
          exact absurd (hplain rfl) (by decide)
        have hcontrol : ¬(isControl c = true ∧ c ≠ '\n') := fun h => h.2 (hplain h.1)
        simp only [List.cons_append, readMultiLiteral, if_neg hquote, if_neg hreturn,
          if_neg hcontrol, ih hcs hrun', Option.map_some, consChar]

/-! ## Strings of every kind -/

namespace StringKind

/-- Whether a kind of string can hold some characters: literal strings have no escapes. -/
def Fits : StringKind → List Char → Prop
  | basic, _ => True
  | multiBasic, _ => True
  | literal, cs => ∀ c ∈ cs, isControl c = false ∧ c ≠ '\''
  | multiLiteral, cs => (∀ c ∈ cs, isControl c = true → c = '\n') ∧ longestRun '\'' 0 cs ≤ 2

/-- The kind that is chosen for a text can hold it. -/
theorem fits_ofText (cs : List Char) : (ofText cs).Fits cs := by
  have hplain (h : needsEscape cs = false) : ∀ c ∈ cs, isControl c = true → c = '\n' := by
    simpa [needsEscape] using h
  unfold ofText
  dsimp only
  split_ifs with hbasic hliteral hmultiBasic hmultiLiteral hfeed
  · exact trivial
  · simp only [Bool.and_eq_true, Bool.not_eq_true', decide_eq_true_eq, List.contains_eq_mem,
      decide_eq_false_iff_not] at hliteral
    obtain ⟨⟨hescape, hrun⟩, hfeed⟩ := hliteral
    intro c hc
    refine ⟨?_, fun hquote => not_mem_of_longestRun hrun (hquote ▸ hc)⟩
    rw [← Bool.not_eq_true]
    intro hcontrol
    exact hfeed (hplain hescape c hc hcontrol ▸ hc)
  · exact trivial
  · simp only [Bool.and_eq_true, Bool.not_eq_true', decide_eq_true_eq] at hmultiLiteral
    exact ⟨hplain hmultiLiteral.1, hmultiLiteral.2⟩
  · exact trivial
  · exact trivial

end StringKind

/-- Nothing is passed over in front of a string that begins with no line end. -/
theorem skipFirstLineEnd_of_head (h : ∀ c ∈ cs.head?, c ≠ '\n' ∧ c ≠ '\r') :
    skipFirstLineEnd cs = cs := by
  match cs with
  | [] => rfl
  | c :: cs =>
    obtain ⟨hfeed, hreturn⟩ := h c rfl
    unfold skipFirstLineEnd
    split
    · rename_i heq
      exact absurd (List.cons.inj heq).1 hfeed
    · rename_i heq
      exact absurd (List.cons.inj heq).1 hreturn
    · rfl

/-- A basic string on one line is read back. -/
theorem readString_basic (cs : List Char) (ends : EndsString rest) :
    readString (writeAs .basic cs ++ rest) = some (cs, rest) := by
  have hread : readBasic .outside (escapeBasic false 0 cs ++ '"' :: rest) = some (cs, rest) :=
    readBasic_escapeBasic cs 0
  have honce : beginsTwice '"' (escapeBasic false 0 cs ++ '"' :: rest) = false := by
    cases cs with
    | nil =>
      cases rest with
      | nil => rfl
      | cons c rest => exact beginsTwice_cons_cons (ends c rfl).1 rest
    | cons c cs =>
      obtain ⟨d, ds, hds, hd⟩ : ∃ d ds, escapeBasic false 0 (c :: cs) = d :: ds ∧ d ≠ '"' :=
        escapeBasic_head fun _ hmulti => absurd hmulti Bool.false_ne_true
      rw [hds]
      exact beginsTwice_cons hd _
  simp [writeAs, StringKind.delimiter, StringKind.isMulti, StringKind.isBasic, readString, honce,
    hread]

/-- A literal string on one line is read back. -/
theorem readString_literal (fits : StringKind.literal.Fits cs) (ends : EndsString rest) :
    readString (writeAs .literal cs ++ rest) = some (cs, rest) := by
  have hread : readLiteral (cs ++ '\'' :: rest) = some (cs, rest) := readLiteral_append fits
  have honce : beginsTwice '\'' (cs ++ '\'' :: rest) = false := by
    cases cs with
    | nil =>
      cases rest with
      | nil => rfl
      | cons c rest => exact beginsTwice_cons_cons (ends c rfl).2 rest
    | cons c cs => exact beginsTwice_cons (fits c List.mem_cons_self).2 _
  simp [writeAs, StringKind.delimiter, StringKind.isMulti, StringKind.isBasic, readString, honce,
    hread]

/-- Over several lines a line end in front is written exactly if it does not count. -/
theorem skipFirstLineEnd_lead {ds : List Char}
    (h : '\n' ∉ cs → ∀ d ∈ ds.head?, d ≠ '\n' ∧ d ≠ '\r') :
    skipFirstLineEnd ((if cs.contains '\n' then ['\n'] else []) ++ ds) = ds := by
  by_cases hfeed : '\n' ∈ cs
  · simp [hfeed, skipFirstLineEnd]
  · simp [hfeed, skipFirstLineEnd_of_head (h hfeed)]

/-- A text without line feeds is not written with a line end in front. -/
theorem escapeBasic_no_line_end (hfeed : '\n' ∉ cs) :
    ∀ d ∈ (escapeBasic true 0 cs ++ '"' :: rest).head?, d ≠ '\n' ∧ d ≠ '\r' := by
  cases cs with
  | nil => simp [escapeBasic]
  | cons c cs =>
    rw [escapeBasic]
    split_ifs with hquote hraw
    · simp
    · exact absurd ⟨rfl, Nat.zero_lt_two⟩ hraw
    · rcases escapeChar_head true c with ⟨ds, hds⟩ | ⟨hds, hreturn, -⟩
      · simp [hds]
      · have : c ≠ '\n' := fun hc => hfeed (by simp [hc])
        simp [hds, this, hreturn]

/-- A basic string over several lines is read back. -/
theorem readString_multiBasic (cs : List Char) (ends : EndsString rest) :
    readString (writeAs .multiBasic cs ++ rest) = some (cs, rest) := by
  have hread := readMultiBasic_escapeBasic cs 0 fun c hc => (ends c hc).1
  have hlead : skipFirstLineEnd ((if cs.contains '\n' then ['\n'] else []) ++
      (escapeBasic true 0 cs ++ '"' :: '"' :: '"' :: rest)) =
        escapeBasic true 0 cs ++ '"' :: '"' :: '"' :: rest :=
    skipFirstLineEnd_lead escapeBasic_no_line_end
  have htext : writeAs .multiBasic cs ++ rest = '"' :: '"' :: '"' ::
      ((if cs.contains '\n' then ['\n'] else []) ++
        (escapeBasic true 0 cs ++ '"' :: '"' :: '"' :: rest)) := by
    simp [writeAs, StringKind.delimiter, StringKind.isMulti, StringKind.isBasic]
  rw [htext, readString, if_pos (beginsTwice_self _ _)]
  simp only [List.drop_succ_cons, List.drop_zero]
  rw [hlead, hread]

/-- A literal string over several lines is read back. -/
theorem readString_multiLiteral (fits : StringKind.multiLiteral.Fits cs) (ends : EndsString rest) :
    readString (writeAs .multiLiteral cs ++ rest) = some (cs, rest) := by
  have hread := readMultiLiteral_append fits.1 fits.2 fun c hc => (ends c hc).2
  have hlead : skipFirstLineEnd ((if cs.contains '\n' then ['\n'] else []) ++
      (cs ++ '\'' :: '\'' :: '\'' :: rest)) = cs ++ '\'' :: '\'' :: '\'' :: rest := by
    apply skipFirstLineEnd_lead
    intro hfeed
    cases cs with
    | nil => simp
    | cons c cs =>
      have hreturn : c ≠ '\r' := by
        rintro rfl
        exact absurd (fits.1 '\r' List.mem_cons_self rfl) (by decide)
      have : c ≠ '\n' := fun hc => hfeed (by simp [hc])
      simp [this, hreturn]
  have htext : writeAs .multiLiteral cs ++ rest = '\'' :: '\'' :: '\'' ::
      ((if cs.contains '\n' then ['\n'] else []) ++ (cs ++ '\'' :: '\'' :: '\'' :: rest)) := by
    simp [writeAs, StringKind.delimiter, StringKind.isMulti, StringKind.isBasic]
  rw [htext, readString, if_pos (beginsTwice_self _ _)]
  simp only [List.drop_succ_cons, List.drop_zero]
  rw [hlead, hread]

/-- A string is read back in every kind of string that can hold it. -/
theorem readString_writeAs {kind : StringKind} (fits : kind.Fits cs) (ends : EndsString rest) :
    readString (writeAs kind cs ++ rest) = some (cs, rest) := by
  cases kind with
  | basic => exact readString_basic cs ends
  | literal => exact readString_literal fits ends
  | multiBasic => exact readString_multiBasic cs ends
  | multiLiteral => exact readString_multiLiteral fits ends

/-- A text is read back from the string that is written for it. -/
theorem readString_quoted (s : String) (ends : EndsString rest) :
    readString ((quoted s).toList ++ rest) = some (s.toList, rest) := by
  rw [quoted, String.toList_ofList]
  exact readString_writeAs (StringKind.fits_ofText s.toList) ends

end TouchAutomata.Toml
