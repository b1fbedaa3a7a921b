import QueryLoom.Proofs.Columns.Leaves
import QueryLoom.Proofs.Dialects.SmallLetters
import QueryLoom.Proofs.Keys.Pieces

/-!
References to columns and the texts that they are read from. The grammar is

    reference := (name | name.name | name.* | *) blanks [(name)] blanks [[Type]] blanks

with the name of a type in any letter case between blanks, and neither a label nor a type behind a
wildcard. A text without blanks at its ends is read as a reference exactly if it spells that reference,
and the text that a reference is written as spells it again.
-/

namespace QueryLoom

/-! Small letters that are ASCII letters. -/

namespace Text

/-- Beyond ASCII only the Kelvin sign has a small letter in ASCII, apart from the dotted capital I. -/
theorem capitalRuns_small : (capitalRuns.all fun run =>
    decide (128 ≤ (run.1 : Int) + run.2.2.2) || run == (0x212A, 0x212A, 1, -8383)) = true := by
  decide +kernel

theorem toNat_ofNat_small {run : CapitalRun} {n : Nat} (hrun : run ∈ capitals) (h : run.Holds n) :
    (Char.ofNat (run.small n)).toNat = run.small n := by
  have hchecked := List.all_eq_true.mp capitals_apart run hrun
  rw [Bool.and_eq_true] at hchecked
  rw [Char.ofNat, dif_pos (CapitalRun.isValidChar_of_inRange hchecked.1 h)]
  rfl

/-- The small letters of a character beyond ASCII are not all of ASCII, or there is a small k. -/
theorem exists_mem_smallLetter {c : Char} (h : 128 ≤ c.toNat) :
    ∃ d ∈ smallLetter c, 128 ≤ d.toNat ∨ d = 'k' := by
  unfold smallLetter
  dsimp only
  split_ifs with hascii hdotted
  · omega
  · exact ⟨Char.ofNat 0x307, by simp, .inl (by decide)⟩
  · split
    · rename_i first last step distance hfound
      have hmem := List.mem_of_find?_eq_some hfound
      have hholds : CapitalRun.Holds (first, last, step, distance) c.toNat := by
        have hfits := List.find?_some hfound
        simp only [Bool.and_eq_true, decide_eq_true_eq, beq_iff_eq] at hfits
        exact ⟨hfits.1.1, hfits.1.2, hfits.2⟩
      have hcode := toNat_ofNat_small (List.mem_cons_of_mem _ (List.mem_cons_of_mem _ hmem)) hholds
      refine ⟨_, List.mem_singleton_self _, ?_⟩
      have hsmall := List.all_eq_true.mp capitalRuns_small _ hmem
      simp only [Bool.or_eq_true, decide_eq_true_eq, beq_iff_eq, Prod.mk.injEq] at hsmall
      obtain hlarge | ⟨rfl, rfl, -, rfl⟩ := hsmall
      · refine .inl ?_
        have hfirst := hholds.1
        change 128 ≤ (Char.ofNat (CapitalRun.small (first, last, step, distance) c.toNat)).toNat
        rw [hcode, CapitalRun.small]
        dsimp only at hfirst hlarge ⊢
        omega
      · have hkelvin : c.toNat = 0x212A := le_antisymm hholds.2.1 hholds.1
        refine .inr ?_
        rw [hkelvin]
        rfl
    · exact ⟨c, List.mem_singleton_self c, .inl h⟩

/-- A text of small letters of ASCII without a k comes from a text of ASCII. -/
theorem toNat_lt_of_smallLettersFrom {cs before : List Char}
    (h : ∀ d ∈ smallLettersFrom before cs, d.toNat < 128 ∧ d ≠ 'k') : ∀ c ∈ cs, c.toNat < 128 := by
  induction cs generalizing before with
  | nil => exact nofun
  | cons c rest ih =>
      rw [smallLettersFrom, List.forall_mem_append] at h
      refine List.forall_mem_cons.mpr ⟨?_, ih h.2⟩
      by_contra hbeyond
      have hsmall := h.1
      split_ifs at hsmall with hsigma hfinal
      · exact absurd (hsmall _ (List.mem_singleton_self _)).1 (by decide)
      · exact absurd (hsmall _ (List.mem_singleton_self _)).1 (by decide)
      · obtain ⟨d, hd, hbad⟩ := exists_mem_smallLetter (Nat.le_of_not_lt hbeyond)
        obtain ⟨hless, hk⟩ := hsmall d hd
        rcases hbad with hge | heq
        · omega
        · exact hk heq

theorem smallLettersFrom_of_ascii {cs before : List Char} (h : ∀ c ∈ cs, c.toNat < 128) :
    smallLettersFrom before cs = cs.map Char.toLower := by
  induction cs generalizing before with
  | nil => rfl
  | cons c rest ih =>
      rw [List.forall_mem_cons] at h
      have hsigma : ¬(c.toNat == 0x3A3) = true := by
        rw [beq_iff_eq]
        omega
      rw [smallLettersFrom, if_neg hsigma, ih h.2, smallLetter]
      dsimp only
      rw [if_pos h.1]
      rfl

end Text

/-! Names of types. -/

namespace Key

open Text

variable {cs rest : List Char}

/-- A text that is the name of a type in some letter case. -/
def NamesType (cs : List Char) (type : ValueType) : Prop :=
  cs.map Char.toLower = type.name.toList.map Char.toLower

theorem toNat_lt_of_toLower {c : Char} (h : c.toLower.toNat < 128) : c.toNat < 128 := by
  by_contra hbeyond
  have hupper : ¬(c.val ≥ 'A'.val ∧ c.val ≤ 'Z'.val) := by
    rintro ⟨-, hle⟩
    have hnat : c.toNat ≤ 90 := hle
    omega
  have hsame : c.toLower = c := dif_neg hupper
  rw [hsame] at h
  omega

theorem name_ascii (type : ValueType) :
    ∀ d ∈ type.name.toList.map Char.toLower, d.toNat < 128 ∧ d ≠ 'k' := by
  have hall : (type.name.toList.map Char.toLower).all
      (fun d => decide (d.toNat < 128 ∧ d ≠ 'k')) = true := by
    cases type <;> decide
  exact fun d hd => of_decide_eq_true (List.all_eq_true.mp hall d hd)

theorem smallLetters_name (type : ValueType) :
    smallLetters type.name = String.ofList (type.name.toList.map Char.toLower) := by
  cases type <;> decide +kernel

theorem smallLetters_eq_iff (type : ValueType) (s : String) :
    smallLetters type.name = smallLetters s ↔ NamesType s.toList type := by
  rw [smallLetters_name, smallLetters, String.ofList_inj, NamesType, eq_comm]
  constructor
  · intro h
    have hsmall : ∀ d ∈ smallLettersFrom [] s.toList, d.toNat < 128 ∧ d ≠ 'k' := h ▸ name_ascii type
    have hascii : ∀ c ∈ s.toList, c.toNat < 128 := toNat_lt_of_smallLettersFrom hsmall
    rwa [smallLettersFrom_of_ascii hascii] at h
  · intro h
    have hascii : ∀ c ∈ s.toList, c.toNat < 128 := by
      intro c hc
      have hlower : c.toLower ∈ type.name.toList.map Char.toLower := h ▸ List.mem_map_of_mem hc
      exact toNat_lt_of_toLower (name_ascii type _ hlower).1
    rwa [smallLettersFrom_of_ascii hascii]

/-- A name is looked up in any letter case. -/
theorem valueType?_eq_some_iff {s : String} {type : ValueType} :
    valueType? s = some type ↔ NamesType s.toList type := by
  rw [← smallLetters_eq_iff]
  constructor
  · intro h
    simpa using List.find?_some h
  · intro h
    rw [valueType?, ← h]
    cases type <;> decide +kernel

/-- The text of a type in brackets, or no text. -/
inductive TypeText : List Char → Option ValueType → Prop
  | none : TypeText [] none
  | some {front name back : List Char} {type : ValueType} (hfront : IsBlankText front)
      (hname : NamesType name type) (hback : IsBlankText back) :
      TypeText ('[' :: (front ++ name ++ back) ++ [']']) (some type)

theorem isNameChar_of_namesType (h : NamesType cs type) : ∀ c ∈ cs, isNameChar c = true := by
  have hletters : ∀ n < 128, isNameChar (Char.ofNat n).toLower = true →
      isNameChar (Char.ofNat n) = true := by
    decide
  have hname : (type.name.toList.map Char.toLower).all isNameChar = true := by
    cases type <;> decide
  intro c hc
  have hlower : c.toLower ∈ type.name.toList.map Char.toLower := h ▸ List.mem_map_of_mem hc
  have hletter := hletters c.toNat (toNat_lt_of_toLower (name_ascii type _ hlower).1)
  rw [Char.ofNat_toNat] at hletter
  exact hletter (List.all_eq_true.mp hname _ hlower)

/-- A type is read from its own text in brackets. If there is none, no bracket is opened. -/
theorem takeType_iff {type : Option ValueType} :
    (∃ content, takeBracketed cs = .ok (content, rest) ∧ typeOfBracket content = .ok type) ↔
      ∃ text, TypeText text type ∧ cs = text ++ rest ∧ (type = none → rest.head? ≠ some '[') := by
  constructor
  · rintro ⟨content, hbracket, htype⟩
    obtain ⟨text, htext, hcs, hrest⟩ := takeBracketed_eq_ok_iff.mp hbracket
    cases htext with
    | none =>
        obtain rfl := Except.ok.inj htype
        exact ⟨[], .none, hcs, fun _ => hrest rfl⟩
    | @some content hcontent =>
        rw [typeOfBracket] at htype
        split at htype
        · next found hfound =>
            obtain rfl := Except.ok.inj htype
            obtain ⟨front, back, hfront, hback, hsplit, -⟩ := exists_trim content
            rw [valueType?_eq_some_iff, Text.trimmed, String.toList_ofList, String.toList_ofList]
              at hfound
            refine ⟨_, .some hfront hfound hback, ?_, fun hnone => absurd hnone (Option.some_ne_none _)⟩
            rw [← hsplit]
            exact hcs
        · cases htype
  · rintro ⟨text, htext, hcs, hrest⟩
    cases htext with
    | none => exact ⟨none, takeBracketed_eq_ok_iff.mpr ⟨[], .none, hcs, fun _ => hrest rfl⟩, rfl⟩
    | @some front name back type hfront hname hback =>
        have hclosing : ']' ∉ front ++ name ++ back := by
          simp only [List.mem_append, not_or]
          refine ⟨⟨fun hmem => ?_, fun hmem => ?_⟩, fun hmem => ?_⟩
          · exact absurd (hfront _ hmem) (by decide)
          · exact absurd (isNameChar_of_namesType hname _ hmem) (by decide)
          · exact absurd (hback _ hmem) (by decide)
        refine ⟨_, takeBracketed_eq_ok_iff.mpr ⟨_, .some hclosing, hcs,
          fun hnone => absurd hnone (Option.some_ne_none _)⟩, ?_⟩
        have htight := IsNamePart.isTight (isNameChar_of_namesType hname)
        have hfound : valueType? (trimmed (String.ofList (front ++ name ++ back))) = some type := by
          rw [valueType?_eq_some_iff, trimmed, String.toList_ofList, String.toList_ofList,
            htight.trim_append hfront hback]
          exact hname
        rw [typeOfBracket, hfound]

/-! Paths. -/

/-- The text of a column, of a column with its table, or of a wildcard. -/
inductive ColumnPathText : List Char → Path → Prop
  | everything : ColumnPathText ['*'] ⟨none, "*"⟩
  | everythingOf {table : String} (htable : IsIdentifier table) :
      ColumnPathText (table.toList ++ ['.', '*']) ⟨some table, "*"⟩
  | column {column : String} (hcolumn : IsIdentifier column) :
      ColumnPathText column.toList ⟨none, column⟩
  | columnOf {table column : String} (htable : IsIdentifier table) (hcolumn : IsIdentifier column) :
      ColumnPathText (table.toList ++ '.' :: column.toList) ⟨some table, column⟩

variable {path : Path} {text : List Char}

theorem exists_text_of_takeColumnPath (h : takeColumnPath cs = .ok (path, rest)) :
    ∃ text, ColumnPathText text path ∧ cs = text ++ rest := by
  unfold takeColumnPath at h
  split at h
  · obtain ⟨rfl, rfl⟩ := Prod.mk.inj (Except.ok.inj h)
    exact ⟨_, .everything, rfl⟩
  · dsimp only at h
    split_ifs at h with hempty
    have hfirst := isIdentifier_takeName (Bool.eq_false_iff.mpr hempty)
    have hchars := takeName_append cs
    split at h
    · next more hmore =>
        obtain ⟨rfl, rfl⟩ := Prod.mk.inj (Except.ok.inj h)
        refine ⟨_, .everythingOf hfirst, ?_⟩
        rw [List.append_assoc, List.cons_append, List.singleton_append, ← hmore, hchars]
    · next more _ hmore =>
        split_ifs at h with hsecond
        obtain ⟨rfl, rfl⟩ := Prod.mk.inj (Except.ok.inj h)
        refine ⟨_, .columnOf hfirst (isIdentifier_takeName (Bool.eq_false_iff.mpr hsecond)), ?_⟩
        rw [List.append_assoc, List.cons_append, takeName_append, ← hmore, hchars]
    · obtain ⟨rfl, rfl⟩ := Prod.mk.inj (Except.ok.inj h)
      exact ⟨_, .column hfirst, hchars.symm⟩

theorem takeColumnPath_bare (hne : (takeName cs).1.isEmpty = false)
    (hdot : ∀ more, (takeName cs).2 ≠ '.' :: more) :
    takeColumnPath cs = .ok (⟨none, (takeName cs).1⟩, (takeName cs).2) := by
  unfold takeColumnPath
  split
  · exact absurd rfl (ne_star_of_takeName hne _)
  · dsimp only
    rw [hne, if_neg Bool.false_ne_true]
    split
    · next hmore => exact absurd hmore (hdot _)
    · next hmore => exact absurd hmore (hdot _)
    · rfl

theorem takeColumnPath_append (h : ColumnPathText text path) (hrest : EndsPath rest) :
    takeColumnPath (text ++ rest) = .ok (path, rest) := by
  cases h with
  | everything => rfl
  | @everythingOf table htable =>
      have htaken : takeName (table.toList ++ '.' :: '*' :: rest) = (table, '.' :: '*' :: rest) :=
        htable.takeName_append (by simp [EndsName]; rfl)
      have hne : (takeName (table.toList ++ '.' :: '*' :: rest)).1.isEmpty = false := by
        rw [htaken]
        exact htable.isEmpty
      have hread := takeColumnPath_wildcard hne (congrArg Prod.snd htaken)
      rw [htaken] at hread
      rw [List.append_assoc, List.cons_append, List.singleton_append]
      exact hread
  | @column column hcolumn =>
      have htaken := hcolumn.takeName_append hrest.endsName
      have hne : (takeName (column.toList ++ rest)).1.isEmpty = false := by
        rw [htaken]
        exact hcolumn.isEmpty
      have hdot : ∀ more, (takeName (column.toList ++ rest)).2 ≠ '.' :: more := by
        rw [htaken]
        rintro more rfl
        exact (hrest '.' rfl).2 rfl
      have hread := takeColumnPath_bare hne hdot
      rwa [htaken] at hread
  | @columnOf table column htable hcolumn =>
      have hfirst : takeName (table.toList ++ '.' :: (column.toList ++ rest)) =
          (table, '.' :: (column.toList ++ rest)) := htable.takeName_append (by simp [EndsName]; rfl)
      have hsecond := hcolumn.takeName_append hrest.endsName
      have hne : (takeName (table.toList ++ '.' :: (column.toList ++ rest))).1.isEmpty = false := by
        rw [hfirst]
        exact htable.isEmpty
      have hne' : (takeName (column.toList ++ rest)).1.isEmpty = false := by
        rw [hsecond]
        exact hcolumn.isEmpty
      have hread := takeColumnPath_qualified hne (congrArg Prod.snd hfirst) (hcolumn.ne_star rest) hne'
      rw [hfirst, hsecond] at hread
      rw [List.append_assoc, List.cons_append]
      exact hread

/-! References. -/

/-- A text that spells a reference: its path, its name in parentheses and its type in brackets, with
blanks behind each of them. A wildcard has neither a name nor a type. -/
inductive Spells : List Char → ColumnRef → Prop
  | intro {path label type gap gap' gap'' : List Char} {ref : ColumnRef}
      (hpath : ColumnPathText path ⟨ref.table, ref.column⟩) (hgap : IsBlankText gap)
      (hlabel : LabelText label ref.label) (hgap' : IsBlankText gap')
      (htype : TypeText type ref.type) (hgap'' : IsBlankText gap'')
      (hplain : ref.isWildcard = true → ref.label = none ∧ ref.type = none) :
      Spells (path ++ (gap ++ (label ++ (gap' ++ (type ++ gap''))))) ref

theorem skipBlanks_gap_append {gap : List Char} (hgap : IsBlankText gap) (cs : List Char) :
    skipBlanks (gap ++ cs) = skipBlanks cs :=
  List.dropWhile_append_of_pos hgap

/-- A name in parentheses is read between blanks. -/
theorem exists_takeAlias {label : Option String} {gap gap' : List Char} (hgap : IsBlankText gap)
    (htext : LabelText text label) (hgap' : IsBlankText gap')
    (hrest : (skipBlanks rest).head? ≠ some '(') :
    ∃ after, takeAlias (skipBlanks (gap ++ (text ++ (gap' ++ rest)))) = .ok (label, after) ∧
      skipBlanks after = skipBlanks rest := by
  rw [skipBlanks_gap_append hgap]
  cases htext with
  | none =>
      refine ⟨skipBlanks rest, ?_, skipBlanks_skipBlanks rest⟩
      rw [List.nil_append, skipBlanks_gap_append hgap']
      exact takeAlias_eq_ok_iff.mpr ⟨[], .none, rfl, fun _ => hrest⟩
  | @some name hname =>
      refine ⟨gap' ++ rest, ?_, skipBlanks_gap_append hgap' rest⟩
      rw [skipBlanks_of_head (by simp; rfl)]
      exact takeAlias_eq_ok_iff.mpr ⟨_, .some hname, rfl, nofun⟩

/-- A type in brackets is read up to the end. -/
theorem exists_takeType {type : Option ValueType} {gap : List Char} (htext : TypeText text type)
    (hgap : IsBlankText gap) :
    (skipBlanks (text ++ gap)).head? ≠ some '(' ∧
      ∃ content after, takeBracketed (skipBlanks (text ++ gap)) = .ok (content, after) ∧
        typeOfBracket content = .ok type ∧ skipBlanks after = [] := by
  have hnone : skipBlanks gap = [] := List.dropWhile_eq_nil_iff.mpr hgap
  cases htext with
  | none =>
      rw [List.nil_append, hnone]
      exact ⟨nofun, none, [], rfl, rfl, rfl⟩
  | @some front name back type hfront hname hback =>
      rw [skipBlanks_of_head (by simp; rfl)]
      refine ⟨by simp, ?_⟩
      obtain ⟨content, hbracket, htype⟩ := takeType_iff.mpr ⟨_, .some hfront hname hback, rfl, nofun⟩
      exact ⟨content, gap, hbracket, htype, hnone⟩

/-! What may stand behind a path. -/

theorem TypeText.endsPath {type : Option ValueType} (h : TypeText text type) : EndsPath text := by
  cases h with
  | none => exact nofun
  | some hfront hname hback => simp [EndsPath]; rfl

/-- A text is read as a reference exactly if it spells it. -/
theorem readColumnRef_eq_ok_iff {ref : ColumnRef} : readColumnRef cs = .ok ref ↔ Spells cs ref := by
  constructor
  · intro h
    simp only [readColumnRef, Except.bind_eq_ok] at h
    obtain ⟨⟨path, rest⟩, hpath, ⟨label, rest'⟩, hlabel, ⟨bracket, rest''⟩, hbracket, type, htype,
      _, hend, h⟩ := h
    obtain ⟨pathText, hpathText, rfl⟩ := exists_text_of_takeColumnPath hpath
    obtain ⟨gap, hgap, hrest, -⟩ := exists_gap rest
    obtain ⟨labelText, hlabelText, hrest', -⟩ := takeAlias_eq_ok_iff.mp hlabel
    obtain ⟨gap', hgap', hgapped, -⟩ := exists_gap rest'
    obtain ⟨typeText, htypeText, hrest'', -⟩ := takeType_iff.mp ⟨bracket, hbracket, htype⟩
    have hlast : IsBlankText rest'' := List.dropWhile_eq_nil_iff.mp (expectEnd_eq_ok_iff.mp hend)
    dsimp only at h hrest hrest' hgapped hrest''
    split_ifs at h with hwildcard
    obtain rfl := Except.ok.inj h
    rw [hrest, hrest', hgapped, hrest'']
    refine .intro hpathText hgap hlabelText hgap' htypeText hlast fun hstar => ?_
    rw [hstar, Bool.true_and, Bool.or_eq_true, not_or, Bool.not_eq_true, Bool.not_eq_true,
      Option.isSome_eq_false_iff, Option.isSome_eq_false_iff, Option.isNone_iff_eq_none,
      Option.isNone_iff_eq_none] at hwildcard
    exact hwildcard
  · rintro ⟨hpath, hgap, hlabel, hgap', htype, hgap'', hplain⟩
    obtain ⟨hopen, content, after, hbracket, hdeclared, hnone⟩ := exists_takeType htype hgap''
    obtain ⟨after', halias, hafter⟩ := exists_takeAlias hgap hlabel hgap' hopen
    have hends := (endsPath_of_isBlankText hgap).append (hlabel.endsPath.append
      ((endsPath_of_isBlankText hgap').append
        (htype.endsPath.append (endsPath_of_isBlankText hgap''))))
    simp only [readColumnRef, Except.bind_eq_ok]
    refine ⟨_, takeColumnPath_append hpath hends, _, halias, (content, after), ?_, _, hdeclared, (),
      expectEnd_eq_ok_iff.mpr hnone, ?_⟩
    · rw [hafter]
      exact hbracket
    · dsimp only
      rw [if_neg]
      rw [Bool.and_eq_true, Bool.or_eq_true]
      rintro ⟨hstar, hdecorated⟩
      obtain ⟨hnolabel, hnotype⟩ := hplain hstar
      rw [hnolabel, hnotype] at hdecorated
      simp at hdecorated

/-! The text that a reference is written as. -/

theorem ColumnPathText.text_eq (h : ColumnPathText text path) : path.text.toList = text := by
  cases h with
  | everything => rfl
  | everythingOf htable => simp [Path.text]
  | column hcolumn => rfl
  | columnOf htable hcolumn => simp [Path.text]

theorem isTight_singleton {c : Char} (h : isBlank c = false) : IsTight [c] := by
  constructor <;> simpa using h

theorem isTight_enclosed {c d : Char} (hc : isBlank c = false) (hd : isBlank d = false)
    (content : List Char) : IsTight (c :: content ++ [d]) :=
  (isTight_singleton hc).append_append (isTight_singleton hd) (by simp) (by simp) content

theorem ColumnPathText.isTight (h : ColumnPathText text path) : IsTight text := by
  cases h with
  | everything => exact isTight_singleton rfl
  | everythingOf htable =>
      exact htable.2.isTight.append ((isTight_singleton rfl).append (isTight_singleton rfl))
  | column hcolumn => exact hcolumn.2.isTight
  | columnOf htable hcolumn =>
      exact htable.2.isTight.append ((isTight_singleton rfl).append hcolumn.2.isTight)

theorem ColumnPathText.ne_nil (h : ColumnPathText text path) : text ≠ [] := by
  cases h with
  | column hcolumn => exact hcolumn.1
  | _ => simp

/-- The name of a column as it is written behind the path. -/
def labelText : Option String → String
  | none => ""
  | some name => "(" ++ name ++ ")"

theorem LabelText.text_eq {label : Option String} (h : LabelText text label) :
    (labelText label).toList = text := by
  cases h with
  | none => rfl
  | some h => simp [labelText]

theorem LabelText.isTight {label : Option String} (h : LabelText text label) : IsTight text := by
  cases h with
  | none => exact ⟨nofun, nofun⟩
  | some h => exact isTight_enclosed rfl rfl _

theorem typeText_name (type : ValueType) :
    TypeText ('[' :: type.name.toList ++ [']']) (some type) := by
  have htext := TypeText.some isBlankText_nil (rfl : NamesType _ type) isBlankText_nil
  rwa [List.nil_append, List.append_nil] at htext

/-- The type of a column as it is written behind a blank. -/
def typeText : Option ValueType → String
  | none => ""
  | some type => " [" ++ type.name ++ "]"

theorem toList_text (ref : ColumnRef) : ref.text.toList =
    (⟨ref.table, ref.column⟩ : Path).text.toList ++
      ((labelText ref.label).toList ++ (typeText ref.type).toList) := by
  have htext : ref.text =
      (⟨ref.table, ref.column⟩ : Path).text ++ labelText ref.label ++ typeText ref.type := by
    obtain ⟨table, column, label, type⟩ := ref
    cases table <;> cases label <;> cases type <;> rfl
  rw [htext, String.toList_append, String.toList_append, List.append_assoc]

/-- What a reference is written as spells it, without blanks at its ends. -/
theorem Spells.canonical {ref : ColumnRef} (h : Spells cs ref) :
    Spells ref.text.toList ref ∧ IsTight ref.text.toList := by
  obtain ⟨hpath, -, hlabel, -, -, -, hplain⟩ := h
  have hfront := hpath.isTight.append hlabel.isTight
  have hne : ∀ more, (⟨ref.table, ref.column⟩ : Path).text.toList ++ more ≠ [] := by
    intro more
    rw [hpath.text_eq]
    exact List.append_ne_nil_of_left_ne_nil hpath.ne_nil more
  rw [← hpath.text_eq, ← hlabel.text_eq] at hfront
  rw [← hpath.text_eq] at hpath
  rw [← hlabel.text_eq] at hlabel
  rw [toList_text]
  cases htype : ref.type with
  | none =>
      have hspells := Spells.intro hpath isBlankText_nil hlabel isBlankText_nil
        (htype ▸ TypeText.none) isBlankText_nil hplain
      simp only [List.nil_append, List.append_nil] at hspells
      simp only [typeText, String.toList_empty, List.append_nil]
      exact ⟨hspells, hfront⟩
  | some type =>
      have hblank : IsBlankText [' '] := List.forall_mem_singleton.mpr rfl
      have hspells := Spells.intro hpath isBlankText_nil hlabel hblank
        (htype ▸ typeText_name type) isBlankText_nil hplain
      have hback : IsTight ('[' :: type.name.toList ++ [']']) := isTight_enclosed rfl rfl _
      have htext : (typeText (some type)).toList =
          [' '] ++ ('[' :: type.name.toList ++ [']']) := by
        simp [typeText]
      simp only [List.nil_append, List.append_nil] at hspells
      rw [htext]
      refine ⟨hspells, ?_⟩
      rw [← List.append_assoc, ← List.append_assoc]
      exact hfront.append_append hback (hne _) (by simp) [' ']

theorem columnRef_eq_ok_iff {key : String} {ref : ColumnRef} :
    columnRef key = .ok ref ↔ Spells (trim key.toList) ref := by
  rw [columnRef, orFault_eq_ok, readColumnRef_eq_ok_iff]

/-- A text is a reference to a column exactly if it spells one between its blanks, and then it is a
reference to this one and no other. Other texts are refused as malformed. The text that a reference
is written as is read as the same reference again. -/
theorem columnRef_canonical (key : String) :
    (∀ ref, columnRef key = .ok ref ↔ Spells (trim key.toList) ref) ∧
      (∀ ref ref', Spells (trim key.toList) ref → Spells (trim key.toList) ref' → ref = ref') ∧
      ((∀ ref, ¬Spells (trim key.toList) ref) →
        ∃ reason, columnRef key = .error (.malformedColumn key reason .select)) ∧
      ∀ ref, columnRef key = .ok ref → columnRef ref.text = .ok ref := by
  refine ⟨fun ref => columnRef_eq_ok_iff, fun ref ref' h h' => ?_, fun hnone => ?_, fun ref h => ?_⟩
  · rw [← columnRef_eq_ok_iff] at h h'
    exact Except.ok.inj (h.symm.trans h')
  · rw [columnRef]
    cases hread : readColumnRef (trim key.toList) with
    | error reason => exact ⟨reason, rfl⟩
    | ok ref => exact absurd (readColumnRef_eq_ok_iff.mp hread) (hnone ref)
  · obtain ⟨hspells, htight⟩ := (columnRef_eq_ok_iff.mp h).canonical
    rw [columnRef_eq_ok_iff, htight.trim]
    exact hspells

theorem columnRef_canonical_of_blanks :
    Spells "users.id \t(uid)[ INT ]".toList ⟨some "users", "id", some "uid", some .int⟩ ∧
      columnRef "users.id(uid) [Int]" = .ok ⟨some "users", "id", some "uid", some .int⟩ := by
  obtain ⟨hspells, -, -, hagain⟩ := columnRef_canonical " users.id \t(uid)[ INT ]\n"
  have hread : columnRef " users.id \t(uid)[ INT ]\n" =
      .ok ⟨some "users", "id", some "uid", some .int⟩ := by
    rfl
  exact ⟨(hspells _).mp hread, hagain _ hread⟩

end Key

end QueryLoom
