import QueryLoom.Proofs.Lexing.Expansion

/-!
Which placeholders stand for tables. The word before a placeholder is the longest run of name characters
there, blanks apart, and a table keyword makes the placeholder a table. Only letters and underscores are
compared with the keywords, so a keyword with a digit directly before it counts too, although the word is
another one then.
-/

namespace QueryLoom

namespace Fragment

variable {tablePrefix : String} {before : List Char}

/-! Words. -/

/-- Whether a word is one of the keywords, in any letter case. -/
def IsTableKeyword (word : List Char) : Prop :=
  String.ofList (word.map Char.toUpper) ∈ tableKeywords

instance (word : List Char) : Decidable (IsTableKeyword word) :=
  inferInstanceAs (Decidable (_ ∈ tableKeywords))

/-- The longest run of name characters that a text ends in, blanks behind it apart. -/
def lastWord (before : List Char) : List Char := (trimEnd before).rtakeWhile Key.isNameChar

/-- The longest run of letters and underscores that a text ends in, blanks behind it apart. -/
def lastLetters (before : List Char) : List Char := (trimEnd before).rtakeWhile isKeywordChar

/-- A text that ends in a keyword with a digit directly before it, blanks behind it apart. -/
def EndsInNumberedKeyword (before : List Char) : Prop :=
  ∃ front digit word gap, before = front ++ digit :: (word ++ gap) ∧ digit.isDigit = true ∧
    IsTableKeyword word ∧ IsBlankText gap

theorem followsTableKeyword_iff :
    followsTableKeyword before.reverse = true ↔ IsTableKeyword (lastLetters before) := by
  rw [followsTableKeyword, List.contains_iff_mem, IsTableKeyword, lastLetters, List.rtakeWhile,
    trimEnd, List.rdropWhile, List.reverse_reverse]

theorem isNameChar_eq (c : Char) : Key.isNameChar c = (isKeywordChar c || c.isDigit) := by
  rw [Key.isNameChar, isKeywordChar, Char.isAlphanum, Bool.or_assoc, Bool.or_assoc,
    Bool.or_comm c.isDigit]

theorem isKeywordChar_of_isDigit {c : Char} (h : c.isDigit = true) : isKeywordChar c = false := by
  have hdigits : ∀ n < 58, (Char.ofNat n).isDigit = true → isKeywordChar (Char.ofNat n) = false := by
    decide
  have hbound : c.toNat < 58 := by
    simp only [Char.isDigit, Bool.and_eq_true, decide_eq_true_eq] at h
    exact Nat.lt_succ_of_le h.2
  have hdigit := hdigits c.toNat hbound
  rw [Char.ofNat_toNat] at hdigit
  exact hdigit h

theorem isKeywordChar_of_toUpper {c : Char} (h : isKeywordChar c.toUpper = true) :
    isKeywordChar c = true := by
  by_cases hlower : c.val ≥ 'a'.val ∧ c.val ≤ 'z'.val
  · have hletter : c.isLower = true :=
      Bool.and_eq_true_iff.mpr ⟨decide_eq_true hlower.1, decide_eq_true hlower.2⟩
    have halpha : c.isAlpha = true := Bool.or_eq_true_iff.mpr (.inr hletter)
    rw [isKeywordChar, halpha, Bool.true_or]
  · have hsame : c.toUpper = c := dif_neg hlower
    rwa [hsame] at h

/-- A keyword is a word of letters. -/
theorem IsTableKeyword.isKeywordChar {word : List Char} (h : IsTableKeyword word) :
    ∀ c ∈ word, Fragment.isKeywordChar c = true := by
  have hkeywords : ∀ keyword ∈ tableKeywords,
      keyword.toList.all Fragment.isKeywordChar = true := by
    decide
  intro c hc
  refine isKeywordChar_of_toUpper (List.all_eq_true.mp (hkeywords _ h) _ ?_)
  rw [String.toList_ofList]
  exact List.mem_map_of_mem hc

theorem lastWord_append {front letters : List Char} (h : trimEnd before = front ++ letters)
    (hletters : ∀ c ∈ letters, isKeywordChar c = true) :
    lastWord before = front.rtakeWhile Key.isNameChar ++ letters := by
  have hnames : ∀ c ∈ letters.reverse, Key.isNameChar c = true := by
    intro c hc
    rw [isNameChar_eq, hletters c (List.mem_reverse.mp hc), Bool.true_or]
  rw [lastWord, h, List.rtakeWhile, List.reverse_append, List.takeWhile_append_of_pos hnames,
    List.reverse_append, List.reverse_reverse, List.rtakeWhile]

/-- The last letters are the last word, or a digit of that word stands before them. -/
theorem lastWord_cases (before : List Char) :
    lastWord before = lastLetters before ∨
      ∃ front digit gap, before = front ++ digit :: (lastLetters before ++ gap) ∧
        digit.isDigit = true ∧ IsBlankText gap ∧ digit ∈ lastWord before := by
  obtain ⟨gap, hbefore, hgap⟩ := exists_trimEnd before
  have hsplit : trimEnd before = (trimEnd before).rdropWhile isKeywordChar ++ lastLetters before :=
    List.rdropWhile_append_rtakeWhile.symm
  have hword := lastWord_append hsplit fun c hc => List.mem_rtakeWhile_imp hc
  rcases List.eq_nil_or_concat' ((trimEnd before).rdropWhile isKeywordChar) with
    hnone | ⟨front, c, hfront⟩
  · rw [hnone] at hword
    exact .inl hword
  · have hstop : isKeywordChar c = false := by
      have hlast := List.rdropWhile_last_not isKeywordChar (trimEnd before) (by simp [hfront])
      simpa [hfront] using hlast
    rw [hfront] at hword hsplit
    by_cases hname : Key.isNameChar c = true
    · rw [List.rtakeWhile_concat_pos _ _ _ hname] at hword
      rw [isNameChar_eq, hstop, Bool.false_or] at hname
      refine .inr ⟨front, c, gap, ?_, hname, hgap, by simp [hword]⟩
      conv_lhs => rw [hbefore, hsplit]
      simp
    · rw [List.rtakeWhile_concat_neg _ _ _ hname] at hword
      exact .inl hword

/-- Behind a digit the last letters are a keyword, and the last word is none. -/
theorem EndsInNumberedKeyword.lastLetters (h : EndsInNumberedKeyword before) :
    IsTableKeyword (lastLetters before) ∧ ¬ IsTableKeyword (lastWord before) := by
  obtain ⟨front, digit, word, gap, rfl, hdigit, hword, hgap⟩ := h
  have hletters := hword.isKeywordChar
  have hstop : ¬ Fragment.isKeywordChar digit = true := by
    rw [isKeywordChar_of_isDigit hdigit]
    exact Bool.false_ne_true
  have hname : Key.isNameChar digit = true := by
    rw [isNameChar_eq, hdigit, Bool.or_true]
  have htight : IsTight (digit :: word) := by
    refine IsNamePart.isTight (List.forall_mem_cons.mpr ⟨hname, fun c hc => ?_⟩)
    rw [isNameChar_eq, hletters c hc, Bool.true_or]
  have htrim : trimEnd (front ++ digit :: (word ++ gap)) = (front ++ [digit]) ++ word := by
    have hends : trimEnd ((front ++ digit :: word) ++ gap) = front ++ digit :: word := by
      have hfront : trimEnd (front ++ digit :: word) = front ++ digit :: word :=
        trimEnd_of_last fun c hc => htight.back c (by rwa [List.getLast?_append_cons] at hc)
      have hgap' : trimEnd gap = [] := List.rdropWhile_eq_nil_iff.mpr hgap
      rw [trimEnd_append hfront, hgap', List.append_nil]
    rw [List.append_assoc] at hends
    exact hends.trans (List.append_cons _ _ _)
  have hrun : Fragment.lastLetters (front ++ digit :: (word ++ gap)) = word := by
    have hreversed : ∀ c ∈ word.reverse, Fragment.isKeywordChar c = true :=
      fun c hc => hletters c (List.mem_reverse.mp hc)
    rw [Fragment.lastLetters, htrim, List.rtakeWhile, List.reverse_append,
      List.takeWhile_append_of_pos hreversed, List.reverse_append, List.reverse_reverse]
    simp [hstop]
  refine ⟨hrun.symm ▸ hword, fun hlast => ?_⟩
  rw [lastWord_append htrim hletters, List.rtakeWhile_concat_pos _ _ _ hname] at hlast
  exact hstop (hlast.isKeywordChar digit (by simp))

/-- Where no digit stands before the keyword, the last word decides. -/
theorem isTableKeyword_iff (h : ¬ EndsInNumberedKeyword before) :
    IsTableKeyword (lastLetters before) ↔ IsTableKeyword (lastWord before) := by
  rcases lastWord_cases before with heq | ⟨front, digit, gap, hbefore, hdigit, hgap, hmem⟩
  · rw [heq]
  · constructor
    · intro hword
      exact absurd ⟨front, digit, _, gap, hbefore, hdigit, hword, hgap⟩ h
    · intro hword
      have hletter := hword.isKeywordChar digit hmem
      rw [isKeywordChar_of_isDigit hdigit] at hletter
      cases hletter

/-! Parts. -/

theorem sameWord_part (part : Part) {before written : List Char} (h : SameWord before written) :
    SameWord (part.source.reverse ++ before) ((text tablePrefix part).toList.reverse ++ written) := by
  -- what a placeholder was read from and what is put out for it both end the word
  have hplaceholder : ∀ {source written' : List Char}, (∃ inner, source = inner ++ ['>']) →
      (∃ inner, written' = inner ++ ['"']) →
      SameWord (source.reverse ++ before) (written'.reverse ++ written) := by
    rintro _ _ ⟨inner, rfl⟩ ⟨inner', rfl⟩
    rw [List.reverse_concat, List.reverse_concat]
    exact .of_cons (by decide) (by decide) _ _
  cases part with
  | verbatim c =>
    rw [text, String.toList_singleton]
    exact h.cons c
  | table name => exact hplaceholder ⟨_, rfl⟩ (exists_concat_quotedIdentifier _)
  | column name => exact hplaceholder ⟨_, rfl⟩ (exists_concat_quotedIdentifier _)
  | qualified owner name =>
      obtain ⟨inner, hinner⟩ := exists_concat_quotedIdentifier name
      refine hplaceholder ⟨_, rfl⟩ ?_
      rw [text, String.toList_append, hinner]
      exact ⟨_, (List.append_assoc _ _ _).symm⟩

/-- The word before a placeholder is the same in a text and in what is put out for it. -/
theorem sameWord_output (ps : List Part) :
    SameWord (ps.flatMap Part.source).reverse (output tablePrefix ps).reverse := by
  induction ps using List.reverseRecOn with
  | nil => exact fun _ => rfl
  | append_singleton ps part ih =>
    simp only [output, List.flatMap_append, List.flatMap_singleton, List.reverse_append] at ih ⊢
    exact sameWord_part part ih

/-- A bare placeholder outside quotes is one part, whose kind follows from the letters before it. -/
theorem parts_bare {name : String} (hname : IsIdentifier name) (hquote : quoteAfter none before = none)
    (rest : List Char) :
    ∃ ps qs, parts [] none (before ++ '<' :: (name.toList ++ '>' :: rest)) =
        ps ++ (if IsTableKeyword (lastLetters before) then .table name else .column name) :: qs ∧
      ps.flatMap Part.source = before ∧ qs.flatMap Part.source = rest := by
  have hnamed : Key.Path.IsNamed ⟨none, name⟩ := ⟨nofun, hname⟩
  have htaken : takePlaceholder? (name.toList ++ '>' :: rest) = some (⟨none, name⟩, rest) :=
    takePlaceholder?_eq_some_iff.mpr ⟨hnamed, rfl⟩
  obtain ⟨ps, before', hparts, hsource⟩ := parts_front [] none before (name.toList ++ '>' :: rest)
  rw [hquote, parts_placeholder before' htaken] at hparts
  have hrest : (parts ['>'] none rest).flatMap Part.source = rest := by
    have hreads : Reads "" none ['>'] rest (parts ['>'] none rest) := reads_parts fun _ => rfl
    exact hreads.source
  have hbegins : Begins ⟨none, name⟩
      ((placeholderPart before' ⟨none, name⟩ :: parts ['>'] none rest).flatMap Part.source) := by
    rw [List.flatMap_cons, source_placeholderPart, hrest]
    exact ⟨hnamed, rest, by simp⟩
  have hkind := (splits_parts "" _).placeholder ps _ _ _ hparts (hsource ▸ hquote) hbegins
  have hletters : placeholderPart before.reverse ⟨none, name⟩ =
      if IsTableKeyword (lastLetters before) then .table name else .column name := by
    simp only [placeholderPart, followsTableKeyword_iff]
  rw [← placeholderPart_congr (sameWord_output ps), hsource, hletters] at hkind
  exact ⟨ps, _, hkind ▸ hparts, hsource, hrest⟩

/-- A bare placeholder outside quotes is put out as a table with the prefix, or as a column without it.
It is a table exactly if the letters and underscores directly before it, blanks apart, are a table
keyword. This is so exactly if the word before it is one, whatever precedes the word, unless a digit of
the word stands before a keyword: then it is a table, although the word is no keyword. -/
theorem table_iff_after_keyword (tablePrefix : String) {sql name : String} {before rest : List Char}
    (hsql : sql.toList = before ++ '<' :: (name.toList ++ '>' :: rest)) (hname : IsIdentifier name)
    (hquote : quoteAfter none before = none) :
    ∃ (isTable : Bool) (ps qs : List Part),
      parts [] none sql.toList = ps ++ (if isTable then .table name else .column name) :: qs ∧
      ps.flatMap Part.source = before ∧ qs.flatMap Part.source = rest ∧
      (expand tablePrefix sql).toList = output tablePrefix ps ++
        (quotedIdentifier (if isTable then tablePrefix ++ name else name)).toList ++
        output tablePrefix qs ∧
      (isTable = true ↔ IsTableKeyword (lastLetters before)) ∧
      ((isTable = true ↔ IsTableKeyword (lastWord before)) ↔ ¬ EndsInNumberedKeyword before) := by
  obtain ⟨ps, qs, hparts, hbefore, hrest⟩ := parts_bare hname hquote rest
  rw [← hsql] at hparts
  refine ⟨decide (IsTableKeyword (lastLetters before)), ps, qs, ?_, hbefore, hrest, ?_,
    decide_eq_true_iff, ?_⟩
  · simpa only [decide_eq_true_eq] using hparts
  · rw [toList_expand, hparts, output, List.flatMap_append, List.flatMap_cons, ← List.append_assoc]
    by_cases hkeyword : IsTableKeyword (lastLetters before) <;> simp [hkeyword, output, text]
  · rw [decide_eq_true_iff]
    constructor
    · intro hsame hnumbered
      obtain ⟨hletters, hword⟩ := hnumbered.lastLetters
      exact hword (hsame.mp hletters)
    · exact isTableKeyword_iff

/-- The word before a table is a keyword in any letter case, also behind another placeholder. -/
theorem table_iff_after_keyword_of_join :
    IsTableKeyword (lastWord "<a>jOIN\n ".toList) ∧
      ∃ ps qs, parts [] none "<a>jOIN\n <users> u".toList = ps ++ .table "users" :: qs ∧
        ps.flatMap Part.source = "<a>jOIN\n ".toList ∧ qs.flatMap Part.source = " u".toList := by
  have hkeyword : IsTableKeyword (lastWord "<a>jOIN\n ".toList) := by decide
  have hsql : "<a>jOIN\n <users> u".toList =
      "<a>jOIN\n ".toList ++ '<' :: ("users".toList ++ '>' :: " u".toList) := by
    decide
  have hname : IsIdentifier "users" := isName_iff.mp (by decide)
  obtain ⟨isTable, ps, qs, hparts, hbefore, hrest, -, -, hword⟩ :=
    table_iff_after_keyword "p_" hsql hname (by decide)
  obtain rfl : isTable = true := by
    refine (hword.mpr fun hnumbered => ?_).mpr hkeyword
    exact hnumbered.lastLetters.2 hkeyword
  exact ⟨hkeyword, ps, qs, hparts, hbefore, hrest⟩

/-- The word `x1FROM` is no keyword, and the placeholder behind it still becomes a table. -/
theorem numbered_keyword_gives_table :
    "x1FROM <id>".toList = "x1FROM ".toList ++ '<' :: ("id".toList ++ '>' :: []) ∧
      quoteAfter none "x1FROM ".toList = none ∧ lastWord "x1FROM ".toList = "x1FROM".toList ∧
      ¬ IsTableKeyword "x1FROM".toList ∧ expand "p_" "x1FROM <id>" = "x1FROM \"p_id\"" := by
  decide +kernel

end Fragment

end QueryLoom
