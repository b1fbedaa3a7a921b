import QueryLoom.Proofs.Statement.DataKeys

/-!
The pieces of keys and the texts that they are read from. Each reader takes the text of its piece off the
front of what is left, and takes as much as there is of it: what is left does not go on with a name, and
opens no parenthesis or bracket if none was read.
-/

namespace QueryLoom

/-! Blanks. -/

/-- A text of nothing but blanks. -/
def IsBlankText (cs : List Char) : Prop := ∀ c ∈ cs, Text.isBlank c = true

theorem isBlankText_nil : IsBlankText [] := nofun

/-- A text whose first and last characters are no blanks. -/
structure IsTight (cs : List Char) : Prop where
  front : ∀ c ∈ cs.head?, Text.isBlank c = false
  back : ∀ c ∈ cs.getLast?, Text.isBlank c = false

namespace Key

variable {cs rest : List Char}

theorem skipBlanks_of_head (h : ∀ c ∈ cs.head?, Text.isBlank c = false) : skipBlanks cs = cs := by
  cases cs with
  | nil => rfl
  | cons c cs => exact List.dropWhile_cons_of_neg (by rw [h c rfl]; exact Bool.false_ne_true)

theorem skipBlanks_append {gap : List Char} (hgap : IsBlankText gap)
    (h : ∀ c ∈ cs.head?, Text.isBlank c = false) : skipBlanks (gap ++ cs) = cs := by
  rw [skipBlanks, List.dropWhile_append_of_pos hgap]
  exact skipBlanks_of_head h

/-- A text is its blanks and what is left when they are skipped. -/
theorem exists_gap (cs : List Char) :
    ∃ gap, IsBlankText gap ∧ cs = gap ++ skipBlanks cs ∧
      ∀ c ∈ (skipBlanks cs).head?, Text.isBlank c = false := by
  refine ⟨cs.takeWhile Text.isBlank, fun c hc => List.mem_takeWhile_imp hc,
    List.takeWhile_append_dropWhile.symm, fun c hc => ?_⟩
  have hnot := List.head?_dropWhile_not Text.isBlank cs
  rw [skipBlanks] at hc
  rw [Option.mem_def.mp hc] at hnot
  simpa using hnot

end Key

theorem trimEnd_of_last {cs : List Char} (h : ∀ c ∈ cs.getLast?, Text.isBlank c = false) :
    trimEnd cs = cs := by
  refine List.rdropWhile_eq_self_iff.mpr fun hne hlast => ?_
  rw [h _ (List.getLast?_eq_some_getLast hne)] at hlast
  cases hlast

/-- A text that neither begins nor ends with a blank keeps its ends. -/
theorem IsTight.trim_append {cs front back : List Char} (h : IsTight cs) (hfront : IsBlankText front)
    (hback : IsBlankText back) : Text.trim (front ++ cs ++ back) = cs := by
  rw [trim_eq]
  cases cs with
  | nil =>
      have hnone : Key.skipBlanks (front ++ [] ++ back) = [] := by
        rw [List.append_nil, Key.skipBlanks, List.dropWhile_append_of_pos hfront]
        exact List.dropWhile_eq_nil_iff.mpr hback
      rw [hnone]
      rfl
  | cons c cs =>
      have hhead : ∀ d ∈ (c :: cs ++ back).head?, Text.isBlank d = false := h.front
      have hnone : trimEnd back = [] := List.rdropWhile_eq_nil_iff.mpr hback
      rw [List.append_assoc, Key.skipBlanks_append hfront hhead,
        trimEnd_append (trimEnd_of_last h.back), hnone, List.append_nil]

theorem IsTight.trim {cs : List Char} (h : IsTight cs) : Text.trim cs = cs := by
  have hends := h.trim_append isBlankText_nil isBlankText_nil
  rwa [List.nil_append, List.append_nil] at hends

theorem IsTight.append {cs ds : List Char} (hcs : IsTight cs) (hds : IsTight ds) :
    IsTight (cs ++ ds) := by
  constructor
  · intro c hc
    rw [List.head?_append, Option.mem_def, Option.or_eq_some_iff] at hc
    exact hc.elim (hcs.front c) fun hsecond => hds.front c hsecond.2
  · intro c hc
    rw [List.getLast?_append, Option.mem_def, Option.or_eq_some_iff] at hc
    exact hc.elim (hds.back c) fun hfirst => hcs.back c hfirst.2

/-- Only the ends count, whatever stands between them. -/
theorem IsTight.append_append {cs ds : List Char} (hcs : IsTight cs) (hds : IsTight ds)
    (hne : cs ≠ []) (hne' : ds ≠ []) (between : List Char) : IsTight (cs ++ between ++ ds) := by
  constructor
  · intro c hc
    rw [List.append_assoc, List.head?_append_of_ne_nil _ hne] at hc
    exact hcs.front c hc
  · intro c hc
    rw [List.getLast?_append_of_ne_nil _ hne'] at hc
    exact hds.back c hc

/-- A text stands between blanks, without blanks at its own ends. -/
theorem exists_trim (cs : List Char) :
    ∃ front back, IsBlankText front ∧ IsBlankText back ∧ cs = front ++ Text.trim cs ++ back ∧
      IsTight (Text.trim cs) := by
  obtain ⟨front, hfront, hcs, hhead⟩ := Key.exists_gap cs
  obtain ⟨back, hskipped, hback⟩ := exists_trimEnd (Key.skipBlanks cs)
  refine ⟨front, back, hfront, hback, ?_, ?_, ?_⟩
  · rw [trim_eq, List.append_assoc, ← hskipped]
    exact hcs
  · intro c hc
    refine hhead c ?_
    rw [trim_eq] at hc
    rw [hskipped, List.head?_append, Option.mem_def.mp hc]
    rfl
  · intro c hc
    have hlast : trimEnd (trimEnd (Key.skipBlanks cs)) = trimEnd (Key.skipBlanks cs) :=
      List.rdropWhile_idempotent _ _
    have hne : trimEnd (Key.skipBlanks cs) ≠ [] := by
      rintro heq
      rw [trim_eq, heq] at hc
      cases hc
    rw [trim_eq, List.getLast?_eq_some_getLast hne, Option.mem_some_iff] at hc
    rw [← hc]
    simpa using List.rdropWhile_eq_self_iff.mp hlast hne

theorem IsNamePart.isTight {cs : List Char} (h : IsNamePart cs) : IsTight cs :=
  ⟨fun c hc => isBlank_of_isNameChar (h c (List.mem_of_head? hc)),
    fun c hc => isBlank_of_isNameChar (h c (List.mem_of_getLast? hc))⟩

/-! Names. -/

theorem IsIdentifier.isEmpty {name : String} (h : IsIdentifier name) : name.isEmpty = false := by
  rw [← String.ofList_toList (s := name), isEmpty_ofList]
  exact List.isEmpty_eq_false_iff.mpr h.1

theorem IsIdentifier.ne_star {name : String} (h : IsIdentifier name) (more rest : List Char) :
    name.toList ++ more ≠ '*' :: rest := by
  intro heq
  obtain ⟨c, cs, hname⟩ := List.exists_cons_of_ne_nil h.1
  rw [hname] at heq
  have hc := h.2 c (hname ▸ List.mem_cons_self)
  rw [(List.cons.inj heq).1] at hc
  cases hc

namespace Key

variable {cs rest : List Char}

/-- Whether a text does not go on with a name. -/
def EndsName (rest : List Char) : Prop := ∀ c ∈ rest.head?, isNameChar c = false

theorem EndsName.takeName (h : EndsName rest) : Key.takeName rest = ("", rest) := by
  cases rest with
  | nil => rfl
  | cons c rest =>
      have hc : ¬isNameChar c = true := by
        rw [h c rfl]
        exact Bool.false_ne_true
      rw [Key.takeName, List.takeWhile_cons_of_neg hc, List.dropWhile_cons_of_neg hc]

/-- A name is read from its own text, up to where it ends. -/
theorem takeName_eq_iff {name : String} (h : IsIdentifier name) :
    takeName cs = (name, rest) ↔ cs = name.toList ++ rest ∧ EndsName rest := by
  constructor
  · intro htaken
    have hchars := takeName_append cs
    rw [htaken] at hchars
    refine ⟨hchars.symm, fun c hc => ?_⟩
    have hnot := List.head?_dropWhile_not isNameChar cs
    have hrest : cs.dropWhile isNameChar = rest := congrArg Prod.snd htaken
    rw [hrest, Option.mem_def.mp hc] at hnot
    simpa using hnot
  · rintro ⟨rfl, hends⟩
    rw [h.2.takeName, hends.takeName, String.ofList_toList, String.append_empty]

end Key

theorem IsIdentifier.takeName_append {name : String} {rest : List Char} (h : IsIdentifier name)
    (hrest : Key.EndsName rest) : Key.takeName (name.toList ++ rest) = (name, rest) :=
  (Key.takeName_eq_iff h).mpr ⟨rfl, hrest⟩

namespace Key

variable {cs rest : List Char}

/-! Names with their tables. -/

/-- Whether a text goes on neither with a name nor with a dot. -/
def EndsPath (rest : List Char) : Prop := ∀ c ∈ rest.head?, isNameChar c = false ∧ c ≠ '.'

theorem EndsPath.endsName (h : EndsPath rest) : EndsName rest := fun c hc => (h c hc).1

theorem EndsPath.append {cs ds : List Char} (hcs : EndsPath cs) (hds : EndsPath ds) :
    EndsPath (cs ++ ds) := by
  cases cs with
  | nil => exact hds
  | cons c cs => exact hcs

theorem endsPath_of_isBlankText {gap : List Char} (h : IsBlankText gap) : EndsPath gap := by
  intro c hc
  have hblank := h c (List.mem_of_head? hc)
  constructor
  · by_contra hname
    rw [isBlank_of_isNameChar (by simpa using hname)] at hblank
    cases hblank
  · rintro rfl
    cases hblank

theorem Path.IsNamed.of_takePath? {path : Path} (h : takePath? cs = some (path, rest)) :
    path.IsNamed := by
  unfold takePath? at h
  dsimp only at h
  split_ifs at h with hempty
  have hfirst := isIdentifier_takeName (Bool.eq_false_iff.mpr hempty)
  split at h
  · split_ifs at h with hsecond
    · obtain ⟨rfl, -⟩ := Prod.mk.inj (Option.some.inj h)
      exact ⟨nofun, hfirst⟩
    · obtain ⟨rfl, -⟩ := Prod.mk.inj (Option.some.inj h)
      exact ⟨by simpa using hfirst, isIdentifier_takeName (Bool.eq_false_iff.mpr hsecond)⟩
  · obtain ⟨rfl, -⟩ := Prod.mk.inj (Option.some.inj h)
    exact ⟨nofun, hfirst⟩

/-- A path is read from its own text, up to where it ends. -/
theorem Path.IsNamed.takePath?_append {path : Path} (h : path.IsNamed) (hrest : EndsPath rest) :
    takePath? (path.text.toList ++ rest) = some (path, rest) := by
  obtain ⟨table, column⟩ := path
  obtain ⟨htable, hcolumn⟩ := h
  have hlast := hcolumn.takeName_append hrest.endsName
  cases table with
  | none =>
      change takePath? (column.toList ++ rest) = _
      unfold takePath?
      simp only [hlast, hcolumn.isEmpty, Bool.false_eq_true, if_false]
      split
      · exact absurd rfl (hrest '.' rfl).2
      · rfl
  | some table =>
      have hname : IsIdentifier table := htable table rfl
      have hfirst : takeName (table.toList ++ '.' :: (column.toList ++ rest)) =
          (table, '.' :: (column.toList ++ rest)) := hname.takeName_append (by simp [EndsName]; rfl)
      have hchars : (Path.text ⟨some table, column⟩).toList ++ rest =
          table.toList ++ '.' :: (column.toList ++ rest) := by
        simp [Path.text]
      rw [hchars]
      unfold takePath?
      simp only [hfirst, hlast, hname.isEmpty, hcolumn.isEmpty, Bool.false_eq_true, if_false]

/-! A name in parentheses. -/

/-- The text of a name in parentheses, or no text. -/
inductive LabelText : List Char → Option String → Prop
  | none : LabelText [] none
  | some {name : String} (h : IsIdentifier name) :
      LabelText ('(' :: name.toList ++ [')']) (some name)

theorem LabelText.endsPath {text : List Char} {label : Option String} (h : LabelText text label) :
    EndsPath text := by
  cases h with
  | none => exact nofun
  | some h => simp [EndsPath]; rfl

/-- A name in parentheses is read from its own text. If there is none, none is opened. -/
theorem takeAlias_eq_ok_iff {label : Option String} : takeAlias cs = .ok (label, rest) ↔
    ∃ text, LabelText text label ∧ cs = text ++ rest ∧ (label = none → rest.head? ≠ some '(') := by
  constructor
  · intro h
    unfold takeAlias at h
    split at h
    · next more =>
        dsimp only at h
        split at h
        · next after hafter =>
            split_ifs at h with hempty
            obtain ⟨rfl, rfl⟩ := Prod.mk.inj (Except.ok.inj h)
            have hname := isIdentifier_takeName (Bool.eq_false_iff.mpr hempty)
            have hchars := takeName_append more
            rw [hafter] at hchars
            refine ⟨_, .some hname, ?_, nofun⟩
            rw [List.cons_append, List.cons_append, List.append_assoc, List.singleton_append, hchars]
        · cases h
    · next hopen =>
        obtain ⟨rfl, rfl⟩ := Prod.mk.inj (Except.ok.inj h)
        refine ⟨[], .none, rfl, fun _ hhead => ?_⟩
        obtain ⟨more, rfl⟩ := List.head?_eq_some_iff.mp hhead
        exact hopen more rfl
  · rintro ⟨text, htext, rfl, hrest⟩
    cases htext with
    | none =>
        cases rest with
        | nil => rfl
        | cons c more =>
            rw [List.nil_append, takeAlias]
            rintro _ heq
            exact hrest rfl (by rw [heq]; rfl)
    | @some name hname =>
        have htaken : takeName (name.toList ++ ')' :: rest) = (name, ')' :: rest) :=
          hname.takeName_append (by simp [EndsName]; rfl)
        rw [List.cons_append, List.cons_append, List.append_assoc, List.singleton_append, takeAlias]
        simp only [htaken, hname.isEmpty]
        rfl

/-! A text in brackets. -/

/-- The text of brackets around a content without a closing one, or no text. -/
inductive BracketText : List Char → Option String → Prop
  | none : BracketText [] none
  | some {content : List Char} (h : ']' ∉ content) :
      BracketText ('[' :: content ++ [']']) (some (String.ofList content))

/-- What stands in brackets is read up to the first one that closes. If there are none, none is
opened. -/
theorem takeBracketed_eq_ok_iff {content : Option String} :
    takeBracketed cs = .ok (content, rest) ↔
      ∃ text, BracketText text content ∧ cs = text ++ rest ∧
        (content = none → rest.head? ≠ some '[') := by
  constructor
  · intro h
    unfold takeBracketed at h
    split at h
    · next more =>
        split at h
        · next c after hafter =>
            obtain ⟨rfl, rfl⟩ := Prod.mk.inj (Except.ok.inj h)
            have hclosing : ']' ∉ more.takeWhile (· != ']') := fun hmem => by
              simpa using List.mem_takeWhile_imp hmem
            have hc : c = ']' := by
              have hnot := List.head?_dropWhile_not (· != ']') more
              rw [hafter] at hnot
              simpa using hnot
            refine ⟨_, .some hclosing, ?_, nofun⟩
            conv_lhs => rw [← List.takeWhile_append_dropWhile (p := (· != ']')) (l := more), hafter, hc]
            simp
        · cases h
    · next hopen =>
        obtain ⟨rfl, rfl⟩ := Prod.mk.inj (Except.ok.inj h)
        refine ⟨[], .none, rfl, fun _ hhead => ?_⟩
        obtain ⟨more, rfl⟩ := List.head?_eq_some_iff.mp hhead
        exact hopen more rfl
  · rintro ⟨text, htext, rfl, hrest⟩
    cases htext with
    | none =>
        cases rest with
        | nil => rfl
        | cons c more =>
            rw [List.nil_append, takeBracketed]
            rintro _ heq
            exact hrest rfl (by rw [heq]; rfl)
    | @some content hcontent =>
        have hall : ∀ c ∈ content, (c != ']') = true := by
          rintro c hc
          simp only [bne_iff_ne, ne_eq]
          rintro rfl
          exact hcontent hc
        rw [List.cons_append, List.cons_append, List.append_assoc, List.singleton_append, takeBracketed,
          List.dropWhile_append_of_pos hall, List.takeWhile_append_of_pos hall]
        simp

/-! The end. -/

theorem expectEnd_eq_ok_iff : expectEnd cs = .ok () ↔ cs = [] := by
  cases cs <;> simp [expectEnd]

end Key

end QueryLoom
