import Mathlib.Data.List.Forall2
import QueryLoom.Key.Condition
import QueryLoom.Key.Data
import QueryLoom.Key.Table
import QueryLoom.Proofs.Keys.ColumnRefs

/-!
The grammars of the other keys. With the blanks at its ends left out, each text reads as

    table reference := name blanks [(name)]
    join key        := [direction] table reference
    data key        := path blanks [[JSON | + | - | * | /]]
    raw column key  := path blanks [[blanks Type blanks]]
    comparison      := path [operator] path

where a path is a name or two with a dot between them; a logical key, with no blanks left out, is `AND` or
`OR`, alone or before blanks and a comment. Every reader accepts the texts of its grammar and no others,
there is one way to take a text apart, and what is found has a text of its own that is read as the same
again.
-/

namespace QueryLoom

/-- At the end of a text without blanks there no blanks are left. -/
theorem IsTight.gap_eq_nil {cs gap : List Char} (h : IsTight (cs ++ gap)) (hgap : IsBlankText gap) :
    gap = [] := by
  by_contra hne
  have hlast : gap.getLast hne ∈ (cs ++ gap).getLast? := by
    rw [List.getLast?_append_of_ne_nil _ hne]
    exact List.getLast?_eq_some_getLast hne
  have hblank := h.back _ hlast
  rw [hgap _ (List.getLast_mem hne)] at hblank
  cases hblank

theorem isTight_trim (cs : List Char) : IsTight (Text.trim cs) := by
  obtain ⟨_, _, _, _, _, htight⟩ := exists_trim cs
  exact htight

theorem IsTight.nil : IsTight [] := ⟨nofun, nofun⟩

/-! The words in brackets. -/

/-- What is looked up under its own text is found under it and no other. -/
theorem find?_text_eq_some_iff {α : Type} {all : List α} {text : α → String}
    (hall : ∀ a, all.find? (fun b => text b == text a) = some a) {s : String} {a : α} :
    all.find? (fun b => text b == s) = some a ↔ s = text a := by
  constructor
  · intro h
    have hfound := List.find?_some h
    exact (beq_iff_eq.mp hfound).symm
  · rintro rfl
    exact hall a

theorem JoinDirection.ofTag?_eq_some_iff {s : String} {direction : JoinDirection} :
    ofTag? s = some direction ↔ s = direction.tag :=
  find?_text_eq_some_iff fun a => by cases a <;> rfl

theorem UpdateOperator.ofText?_eq_some_iff {s : String} {operator : UpdateOperator} :
    ofText? s = some operator ↔ s = operator.text :=
  find?_text_eq_some_iff fun a => by cases a <;> rfl

theorem ComparisonOperator.ofText?_eq_some_iff {s : String} {operator : ComparisonOperator} :
    ofText? s = some operator ↔ s = operator.text :=
  find?_text_eq_some_iff fun a => by cases a <;> rfl

namespace Key

open Text

variable {cs rest text gap : List Char}

/-- A letter whose capital is a given one: the capital itself, its small letter, and for I and S the
dotless i and the long s. -/
def HasCapital (c capital : Char) : Prop :=
  c = capital ∨ c = capital.toLower ∨ capital = 'I' ∧ c = 'ı' ∨ capital = 'S' ∧ c = 'ſ'

instance (c capital : Char) : Decidable (HasCapital c capital) :=
  inferInstanceAs (Decidable (_ ∨ _))

/-- A text that is the word JSON in some letter case. -/
def NamesJson (cs : List Char) : Prop := List.Forall₂ HasCapital cs "JSON".toList

theorem keywordCapital_eq_iff {c capital : Char} (h : capital ∈ "JSON".toList) :
    keywordCapital c = capital ↔ HasCapital c capital := by
  -- with `all`, since a quantifier over characters may be decided by going through them all
  have hascii : ∀ n < 128, ("JSON".toList.all fun capital =>
      decide (keywordCapital (Char.ofNat n) = capital ↔ HasCapital (Char.ofNat n) capital)) = true := by
    decide +kernel
  have hbeyond : ("JSON".toList.all fun capital =>
      decide (capital.toNat < 128 ∧ capital.toLower.toNat < 128 ∧
        (keywordCapital 'ı' = capital ↔ HasCapital 'ı' capital) ∧
        (keywordCapital 'ſ' = capital ↔ HasCapital 'ſ' capital))) = true := by
    decide +kernel
  obtain ⟨hcapital, hsmall, hdotless, hlong⟩ :=
    of_decide_eq_true (List.all_eq_true.mp hbeyond capital h)
  by_cases hless : c.toNat < 128
  · have hiff := of_decide_eq_true (List.all_eq_true.mp (hascii c.toNat hless) capital h)
    rwa [Char.ofNat_toNat] at hiff
  · by_cases hi : c = 'ı'
    · rw [hi]
      exact hdotless
    · by_cases hs : c = 'ſ'
      · rw [hs]
        exact hlong
      · have hsame : keywordCapital c = c := by
          have hlower : ¬(c.val ≥ 'a'.val ∧ c.val ≤ 'z'.val) := by
            rintro ⟨-, hle⟩
            have hnat : c.toNat ≤ 122 := hle
            omega
          have hupper : c.toUpper = c := dif_neg hlower
          have hi' : c.toNat ≠ 0x131 := fun heq => hi (Char.toNat_inj.mp heq)
          have hs' : c.toNat ≠ 0x17F := fun heq => hs (Char.toNat_inj.mp heq)
          rw [keywordCapital, if_neg (by simpa using hi'), if_neg (by simpa using hs'), hupper]
        have hne : ∀ d : Char, d.toNat < 128 → c ≠ d := by
          rintro d hd rfl
          exact hless hd
        simp [HasCapital, hsame, hne _ hcapital, hne _ hsmall, hi, hs]

theorem keywordForm_eq_json_iff {s : String} : keywordForm s = "JSON" ↔ NamesJson s.toList := by
  have hletters : ∀ {cs capitals : List Char}, (∀ d ∈ capitals, d ∈ "JSON".toList) →
      (cs.map keywordCapital = capitals ↔ List.Forall₂ HasCapital cs capitals) := by
    intro cs capitals h
    induction cs generalizing capitals with
    | nil => cases capitals <;> simp [List.forall₂_nil_left_iff]
    | cons c cs ih =>
      cases capitals with
      | nil => simp [List.forall₂_nil_right_iff]
      | cons d capitals =>
        rw [List.forall_mem_cons] at h
        rw [List.map_cons, List.cons.injEq, List.forall₂_cons, keywordCapital_eq_iff h.1, ih h.2]
  rw [keywordForm, ← String.toList_inj, String.toList_ofList]
  exact hletters fun _ => id

/-! Suffixes. -/

/-- A word in brackets is read from its own text. -/
theorem takeBracketed_word_iff {word : String} :
    takeBracketed cs = .ok (some word, rest) ↔
      ']' ∉ word.toList ∧ cs = '[' :: word.toList ++ [']'] ++ rest := by
  rw [takeBracketed_eq_ok_iff]
  constructor
  · rintro ⟨text, htext, rfl, -⟩
    generalize hword : some word = content at htext
    cases htext with
    | none => cases hword
    | some hclosing =>
        obtain rfl := Option.some.inj hword
        rw [String.toList_ofList]
        exact ⟨hclosing, rfl⟩
  · rintro ⟨hclosing, rfl⟩
    have htext := BracketText.some hclosing
    rw [String.ofList_toList] at htext
    exact ⟨_, htext, rfl, nofun⟩

/-- A name in parentheses is read up to the end. -/
theorem takeAlias_end {label : Option String} (hgap : IsBlankText gap) (h : LabelText text label) :
    takeAlias (skipBlanks (gap ++ text)) = .ok (label, []) := by
  rw [skipBlanks_append hgap h.isTight.front, takeAlias_eq_ok_iff]
  exact ⟨text, h, (List.append_nil text).symm, fun _ => nofun⟩

/-- The mode of a data key in brackets, or no text. -/
inductive ModeText : List Char → DataMode → Prop
  | plain : ModeText [] .plain
  | json {name : List Char} (hname : NamesJson name) : ModeText ('[' :: name ++ [']']) .json
  | arithmetic (operator : UpdateOperator) :
      ModeText ('[' :: operator.text.toList ++ [']']) (.arithmetic operator)

theorem dataMode_eq_ok_iff {suffix : String} {mode : DataMode} :
    dataMode (some suffix) = .ok mode ↔ mode = .json ∧ NamesJson suffix.toList ∨
      ∃ operator, mode = .arithmetic operator ∧ suffix = operator.text := by
  simp only [← keywordForm_eq_json_iff, ← UpdateOperator.ofText?_eq_some_iff, dataMode, beq_iff_eq]
  split_ifs with hjson
  · have hnone : ∀ operator, UpdateOperator.ofText? suffix ≠ some operator := by
      intro operator hoperator
      rw [UpdateOperator.ofText?_eq_some_iff] at hoperator
      rw [hoperator] at hjson
      revert hjson
      cases operator <;> decide
    simp [hjson, hnone, eq_comm]
  · cases hoperator : UpdateOperator.ofText? suffix <;> simp [hjson, eq_comm]

theorem NamesJson.closing_notMem {name : List Char} (h : NamesJson name) : ']' ∉ name := by
  intro hmem
  have hform := keywordForm_eq_json_iff.mpr (String.toList_ofList (l := name) ▸ h)
  have hcapital : ']' ∈ (keywordForm (String.ofList name)).toList := by
    rw [keywordForm, String.toList_ofList, String.toList_ofList]
    exact List.mem_map.mpr ⟨']', hmem, rfl⟩
  rw [hform] at hcapital
  exact absurd hcapital (by decide)

/-- A mode is read from its own text in brackets, up to the end. -/
theorem takeMode_iff {mode : DataMode} :
    (∃ content, takeBracketed cs = .ok (content, []) ∧ dataMode content = .ok mode) ↔
      ModeText cs mode := by
  constructor
  · rintro ⟨content, hbracket, hmode⟩
    cases content with
    | none =>
        obtain rfl := Except.ok.inj hmode
        obtain ⟨text, htext, rfl, -⟩ := takeBracketed_eq_ok_iff.mp hbracket
        cases htext
        exact .plain
    | some word =>
        obtain ⟨-, rfl⟩ := takeBracketed_word_iff.mp hbracket
        rw [List.append_nil]
        obtain ⟨rfl, hjson⟩ | ⟨operator, rfl, rfl⟩ := dataMode_eq_ok_iff.mp hmode
        · exact .json hjson
        · exact .arithmetic operator
  · have hword : ∀ {word : String}, ']' ∉ word.toList →
        takeBracketed ('[' :: word.toList ++ [']']) = .ok (some word, []) :=
      fun hclosing => takeBracketed_word_iff.mpr ⟨hclosing, (List.append_nil _).symm⟩
    intro h
    cases h with
    | plain => exact ⟨none, rfl, rfl⟩
    | @json name hname =>
        rw [← String.toList_ofList (l := name)] at hname ⊢
        exact ⟨_, hword hname.closing_notMem, dataMode_eq_ok_iff.mpr (.inl ⟨rfl, hname⟩)⟩
    | arithmetic operator =>
        exact ⟨_, hword (by cases operator <;> decide),
          dataMode_eq_ok_iff.mpr (.inr ⟨operator, rfl, rfl⟩)⟩

/-! Tables and joins. -/

/-- A text that spells a table: its name, and behind blanks the name in parentheses. -/
inductive SpellsTable : List Char → TableRef → Prop
  | intro {table : String} {label : Option String} {gap text : List Char} (htable : IsIdentifier table)
      (hgap : IsBlankText gap) (hlabel : LabelText text label) :
      SpellsTable (table.toList ++ (gap ++ text)) ⟨table, label⟩

theorem exists_label_of_takeAlias {label : Option String}
    (h : takeAlias (skipBlanks cs) = .ok (label, rest)) :
    ∃ gap text, IsBlankText gap ∧ LabelText text label ∧ cs = gap ++ text ++ rest := by
  obtain ⟨gap, hgap, hcs, -⟩ := exists_gap cs
  obtain ⟨text, htext, hskipped, -⟩ := takeAlias_eq_ok_iff.mp h
  refine ⟨gap, text, hgap, htext, ?_⟩
  rw [List.append_assoc, ← hskipped]
  exact hcs

theorem spellsTable_of_takeAlias {table : String} {label : Option String} (htable : IsIdentifier table)
    (hname : takeName cs = (table, rest)) (h : takeAlias (skipBlanks rest) = .ok (label, [])) :
    SpellsTable cs ⟨table, label⟩ := by
  obtain ⟨gap, text, hgap, htext, hrest⟩ := exists_label_of_takeAlias h
  obtain ⟨rfl, -⟩ := (takeName_eq_iff htable).mp hname
  rw [hrest, List.append_nil]
  exact .intro htable hgap htext

theorem SpellsTable.takeName {ref : TableRef} (h : SpellsTable cs ref) :
    IsIdentifier ref.table ∧ ∃ rest, Key.takeName cs = (ref.table, rest) ∧
      takeAlias (skipBlanks rest) = .ok (ref.label, []) := by
  obtain ⟨htable, hgap, hlabel⟩ := h
  have hends := (endsPath_of_isBlankText hgap).append hlabel.endsPath
  exact ⟨htable, _, htable.takeName_append hends.endsName, takeAlias_end hgap hlabel⟩

theorem readTableRef?_eq_some_iff {ref : TableRef} (htight : IsTight cs) :
    readTableRef? cs = some ref ↔ SpellsTable cs ref := by
  constructor
  · intro h
    unfold readTableRef? at h
    dsimp only at h
    split at h
    · cases h
    · next label rest hlabel =>
        split_ifs at h with hend
        obtain rfl := Option.some.inj h
        rw [Bool.or_eq_true, not_or, Bool.not_eq_true, Bool.not_eq_true, Bool.not_eq_false',
          List.isEmpty_iff] at hend
        obtain ⟨hempty, hblank⟩ := hend
        obtain ⟨gap, text, -, -, hrest⟩ := exists_label_of_takeAlias hlabel
        have hchars := takeName_append cs
        rw [hrest, ← List.append_assoc] at hchars
        rw [← hchars] at htight
        obtain rfl := htight.gap_eq_nil (List.dropWhile_eq_nil_iff.mp hblank)
        exact spellsTable_of_takeAlias (isIdentifier_takeName hempty) rfl hlabel
  · intro h
    obtain ⟨htable, rest, hname, hlabel⟩ := h.takeName
    unfold readTableRef?
    simp only [hname, hlabel, htable.isEmpty]
    rfl

/-- A text that spells a join: its direction in brackets, and a table. -/
inductive SpellsJoin : List Char → JoinKey → Prop
  | intro {target : TableRef} {text : List Char} (direction : JoinDirection)
      (htarget : SpellsTable text target) :
      SpellsJoin ('[' :: direction.tag.toList ++ [']'] ++ text) ⟨direction, target⟩

theorem readJoinKey_eq_ok_iff {key : JoinKey} : readJoinKey cs = .ok key ↔ SpellsJoin cs key := by
  constructor
  · intro h
    unfold readJoinKey at h
    split at h
    · cases h
    · cases h
    · next tag rest hbracket =>
        split at h
        · cases h
        · next direction htag =>
            dsimp only at h
            split_ifs at h with hempty
            simp only [Except.bind_eq_ok] at h
            obtain ⟨⟨label, after⟩, hlabel, _, hend, h⟩ := h
            obtain rfl := Except.ok.inj h
            obtain rfl := expectEnd_eq_ok_iff.mp hend
            obtain rfl := JoinDirection.ofTag?_eq_some_iff.mp htag
            obtain ⟨-, rfl⟩ := takeBracketed_word_iff.mp hbracket
            exact .intro direction (spellsTable_of_takeAlias
              (isIdentifier_takeName (Bool.eq_false_iff.mpr hempty)) rfl hlabel)
  · rintro ⟨direction, htarget⟩
    obtain ⟨htable, rest, hname, hlabel⟩ := htarget.takeName
    have hclosing : ']' ∉ direction.tag.toList := by cases direction <;> decide
    unfold readJoinKey
    simp only [takeBracketed_word_iff.mpr ⟨hclosing, rfl⟩,
      JoinDirection.ofTag?_eq_some_iff.mpr rfl, hname, htable.isEmpty, hlabel]
    rfl

/-! Keys of written data and of raw columns. -/

/-- A text that spells a data key: a path, and behind blanks how its value is written. -/
inductive SpellsData : List Char → DataKey → Prop
  | intro {path : Path} {mode : DataMode} {gap text : List Char} (hpath : path.IsNamed)
      (hgap : IsBlankText gap) (hmode : ModeText text mode) :
      SpellsData (path.text.toList ++ (gap ++ text)) ⟨path.text, mode⟩

theorem ModeText.isTight {mode : DataMode} (h : ModeText text mode) : IsTight text := by
  cases h with
  | plain => exact .nil
  | json hname => exact isTight_enclosed rfl rfl _
  | arithmetic operator => exact isTight_enclosed rfl rfl _

theorem ModeText.endsPath {mode : DataMode} (h : ModeText text mode) : EndsPath text := by
  cases h with
  | plain => exact endsPath_of_isBlankText isBlankText_nil
  | json hname => simp [EndsPath]; rfl
  | arithmetic operator => simp [EndsPath]; rfl

theorem readDataKey_eq_ok_iff {key : DataKey} : readDataKey cs = .ok key ↔ SpellsData cs key := by
  constructor
  · intro h
    unfold readDataKey at h
    split at h
    · cases h
    · next path rest hpath =>
        simp only [Except.bind_eq_ok] at h
        obtain ⟨⟨suffix, after⟩, hbracket, _, hend, mode, hmode, h⟩ := h
        obtain rfl := Except.ok.inj h
        obtain rfl := expectEnd_eq_ok_iff.mp hend
        obtain ⟨gap, hgap, hrest, -⟩ := exists_gap rest
        rw [← takePath?_append hpath, hrest]
        exact .intro (.of_takePath? hpath) hgap (takeMode_iff.mp ⟨suffix, hbracket, hmode⟩)
  · rintro ⟨hpath, hgap, hmode⟩
    obtain ⟨suffix, hbracket, hfound⟩ := takeMode_iff.mpr hmode
    have hends := (endsPath_of_isBlankText hgap).append hmode.endsPath
    unfold readDataKey
    simp only [hpath.takePath?_append hends, skipBlanks_append hgap hmode.isTight.front, hbracket,
      Except.bind_eq_ok]
    exact ⟨_, rfl, (), rfl, _, hfound, rfl⟩

/-- A text that spells the key of a raw column: a path, of which the name behind the dot counts, and
behind blanks a type in brackets. -/
inductive SpellsRaw : List Char → ColumnRef → Prop
  | intro {path : Path} {type : Option ValueType} {gap text : List Char} (hpath : path.IsNamed)
      (hgap : IsBlankText gap) (htype : TypeText text type) :
      SpellsRaw (path.text.toList ++ (gap ++ text)) ⟨none, path.column, some path.column, type⟩

theorem readRawColumnKey_eq_ok_iff {ref : ColumnRef} (htight : IsTight cs) :
    readRawColumnKey cs = .ok ref ↔ SpellsRaw cs ref := by
  constructor
  · intro h
    unfold readRawColumnKey at h
    split at h
    · cases h
    · next path rest hpath =>
        simp only [Except.bind_eq_ok] at h
        obtain ⟨⟨bracket, after⟩, hbracket, type, htype, _, hend, h⟩ := h
        obtain rfl := Except.ok.inj h
        obtain ⟨gap, hgap, hrest, -⟩ := exists_gap rest
        obtain ⟨text, htext, hskipped, -⟩ := takeType_iff.mp ⟨bracket, hbracket, htype⟩
        have hchars := takePath?_append hpath
        rw [hrest, hskipped, ← List.append_assoc, ← List.append_assoc] at hchars
        rw [← hchars] at htight ⊢
        obtain rfl := htight.gap_eq_nil (List.dropWhile_eq_nil_iff.mp (expectEnd_eq_ok_iff.mp hend))
        rw [List.append_nil, List.append_assoc]
        exact .intro (.of_takePath? hpath) hgap htext
  · rintro ⟨hpath, hgap, htype⟩
    obtain ⟨-, content, after, hbracket, hfound, hnone⟩ := exists_takeType htype isBlankText_nil
    have hends := (endsPath_of_isBlankText hgap).append htype.endsPath
    rw [List.append_nil] at hbracket
    unfold readRawColumnKey
    simp only [hpath.takePath?_append hends, skipBlanks_gap_append hgap, hbracket, Except.bind_eq_ok]
    exact ⟨_, rfl, _, hfound, (), expectEnd_eq_ok_iff.mpr hnone, rfl⟩

/-! Comparisons and logical keys. -/

/-- A text that spells a comparison: two paths with an operator in brackets between them. -/
inductive SpellsComparison : List Char → ColumnComparison → Prop
  | intro {left right : Path} (hleft : left.IsNamed) (operator : ComparisonOperator)
      (hright : right.IsNamed) :
      SpellsComparison
        (left.text.toList ++ ('[' :: operator.text.toList ++ [']'] ++ right.text.toList))
        ⟨left.text, operator, right.text⟩

theorem columnComparison?_eq_some_iff {key : String} {comparison : ColumnComparison} :
    columnComparison? key = some comparison ↔ SpellsComparison (trim key.toList) comparison := by
  generalize htrim : trim key.toList = cs
  constructor
  · intro h
    simp only [columnComparison?, htrim, Option.bind_eq_bind, Option.bind_eq_some_iff] at h
    obtain ⟨⟨left, rest⟩, hleft, h⟩ := h
    split at h
    · next word after hbracket =>
        simp only [Option.bind_eq_some_iff] at h
        obtain ⟨⟨right, last⟩, hright, h⟩ := h
        dsimp only at hbracket h
        split_ifs at h with hend
        obtain ⟨operator, hoperator, h⟩ := Option.bind_eq_some_iff.mp h
        obtain rfl := Option.some.inj h
        obtain rfl := ComparisonOperator.ofText?_eq_some_iff.mp hoperator
        obtain ⟨-, rfl⟩ := takeBracketed_word_iff.mp hbracket
        obtain rfl := List.isEmpty_iff.mp hend
        have hchars := takePath?_append hright
        rw [List.append_nil] at hchars
        rw [← takePath?_append hleft, ← hchars]
        exact .intro (.of_takePath? hleft) operator (.of_takePath? hright)
    · cases h
  · rintro @⟨left, right, hleft, operator, hright⟩
    have hclosing : ']' ∉ operator.text.toList := by cases operator <;> decide
    have hbracket : takeBracketed ('[' :: operator.text.toList ++ [']'] ++ right.text.toList) =
        .ok (some operator.text, right.text.toList) := takeBracketed_word_iff.mpr ⟨hclosing, rfl⟩
    have hends : EndsPath ('[' :: operator.text.toList ++ [']'] ++ right.text.toList) := by
      simp [EndsPath]
      rfl
    have hsecond := hright.takePath?_append (endsPath_of_isBlankText isBlankText_nil)
    rw [List.append_nil] at hsecond
    simp only [columnComparison?, htrim, hleft.takePath?_append hends, hbracket, hsecond,
      ComparisonOperator.ofText?_eq_some_iff.mpr rfl, Option.bind_eq_bind, Option.bind_some]
    rfl

/-- A text that spells a connective: the word alone, or before blanks and a comment. -/
inductive SpellsLogical : List Char → Connective → Prop
  | word (connective : Connective) : SpellsLogical connective.text.toList connective
  | commented {gap : List Char} (connective : Connective) (hgap : IsBlankText gap) (hne : gap ≠ [])
      (comment : List Char) :
      SpellsLogical (connective.text.toList ++ (gap ++ '#' :: comment)) connective

theorem afterWord?_eq_some_iff {word : List Char} :
    afterWord? word cs = some rest ↔ cs = word ++ rest := by
  refine ⟨afterWord?_eq_some, ?_⟩
  rintro rfl
  induction word with
  | nil => rfl
  | cons c word ih =>
      rw [List.cons_append, afterWord?, if_pos (beq_self_eq_true c)]
      exact ih

theorem isLogicalKey_iff {connective : Connective} :
    isLogicalKey connective cs = true ↔ SpellsLogical cs connective := by
  constructor
  · intro h
    unfold isLogicalKey at h
    split at h
    · cases h
    · next hafter =>
        rw [afterWord?_eq_some_iff.mp hafter, List.append_nil]
        exact .word connective
    · next c rest hafter =>
        rw [Bool.and_eq_true, beq_iff_eq, List.head?_eq_some_iff] at h
        obtain ⟨hblank, comment, hcomment⟩ := h
        obtain ⟨gap, hgap, hrest, -⟩ := exists_gap rest
        rw [afterWord?_eq_some_iff.mp hafter, hrest, hcomment]
        exact .commented connective (List.forall_mem_cons.mpr ⟨hblank, hgap⟩)
          (List.cons_ne_nil c gap) comment
  · intro h
    cases h with
    | word =>
        unfold isLogicalKey
        rw [afterWord?_eq_some_iff.mpr (List.append_nil _).symm]
    | @commented gap _ hgap hne comment =>
        obtain ⟨c, gap, rfl⟩ := List.exists_cons_of_ne_nil hne
        rw [IsBlankText, List.forall_mem_cons] at hgap
        unfold isLogicalKey
        rw [afterWord?_eq_some_iff.mpr rfl]
        simp only [List.cons_append, hgap.1, Bool.true_and]
        rw [skipBlanks_append hgap.2 (by simp; rfl)]
        rfl

theorem SpellsLogical.head? {connective : Connective} (h : SpellsLogical cs connective) :
    cs.head? = connective.text.toList.head? := by
  cases h <;> cases connective <;> rfl

theorem logicalKey?_eq_some_iff {key : String} {connective : Connective} :
    logicalKey? key = some connective ↔ SpellsLogical key.toList connective := by
  constructor
  · intro h
    have hfound := List.find?_some h
    exact isLogicalKey_iff.mp hfound
  · intro h
    cases connective with
    | and => exact List.find?_cons_of_pos (isLogicalKey_iff.mpr h)
    | or =>
        have hand : ¬isLogicalKey .and key.toList = true := fun hand => by
          have hheads := (isLogicalKey_iff.mp hand).head?.symm.trans h.head?
          cases hheads
        rw [logicalKey?, List.find?_cons_of_neg (p := fun c => isLogicalKey c key.toList) hand]
        exact List.find?_cons_of_pos (isLogicalKey_iff.mpr h)

theorem Path.IsNamed.isTight {path : Path} (h : path.IsNamed) : IsTight path.text.toList := by
  obtain ⟨table, column⟩ := path
  obtain ⟨htable, hcolumn⟩ := h
  cases table with
  | none => exact hcolumn.2.isTight
  | some table =>
      have htext := ColumnPathText.columnOf (htable table rfl) hcolumn
      rw [htext.text_eq]
      exact htext.isTight

theorem Path.IsNamed.text_ne_nil {path : Path} (h : path.IsNamed) : path.text.toList ≠ [] := by
  obtain ⟨table, column⟩ := path
  cases table with
  | none => exact h.2.1
  | some table => simp [Path.text]

end Key

/-! The texts of what was found. -/

open Key

/-- A table as it is written in a reference. -/
def TableRef.text (ref : TableRef) : String := ref.table ++ labelText ref.label

/-- A join as it is written in a key. -/
def JoinKey.text (key : JoinKey) : String := "[" ++ key.direction.tag ++ "]" ++ key.target.text

/-- The brackets behind the column of a data key. -/
def DataMode.text : DataMode → String
  | .plain => ""
  | .json => "[JSON]"
  | .arithmetic operator => "[" ++ operator.text ++ "]"

/-- A data key as it is written. -/
def DataKey.text (key : DataKey) : String := key.column ++ key.mode.text

/-- The key of a raw column as it is written. -/
def ColumnRef.rawKey (ref : ColumnRef) : String := ref.column ++ typeText ref.type

/-- A comparison as it is written. -/
def ColumnComparison.text (comparison : ColumnComparison) : String :=
  comparison.left ++ "[" ++ comparison.operator.text ++ "]" ++ comparison.right

namespace Key

open Text

variable {cs : List Char}

theorem SpellsTable.canonical {ref : TableRef} (h : SpellsTable cs ref) :
    SpellsTable ref.text.toList ref ∧ IsTight ref.text.toList := by
  obtain ⟨htable, -, hlabel⟩ := h
  rw [TableRef.text, String.toList_append, hlabel.text_eq]
  exact ⟨.intro htable isBlankText_nil hlabel, htable.2.isTight.append hlabel.isTight⟩

theorem SpellsJoin.canonical {key : JoinKey} (h : SpellsJoin cs key) :
    SpellsJoin key.text.toList key ∧ IsTight key.text.toList := by
  obtain @⟨target, _, direction, htarget⟩ := h
  obtain ⟨hspells, htight⟩ := htarget.canonical
  have htext : (JoinKey.text ⟨direction, target⟩).toList =
      '[' :: direction.tag.toList ++ [']'] ++ target.text.toList := by
    simp [JoinKey.text]
  rw [htext]
  exact ⟨.intro direction hspells, (isTight_enclosed rfl rfl _).append htight⟩

theorem modeText_text (mode : DataMode) : ModeText mode.text.toList mode := by
  cases mode with
  | plain => exact .plain
  | json =>
      have htext : DataMode.json.text.toList = '[' :: "JSON".toList ++ [']'] := by decide
      rw [htext]
      exact .json (keywordForm_eq_json_iff.mp (by decide))
  | arithmetic operator =>
      have htext : (DataMode.arithmetic operator).text.toList = '[' :: operator.text.toList ++ [']'] := by
        simp [DataMode.text]
      rw [htext]
      exact .arithmetic operator

theorem SpellsData.canonical {key : DataKey} (h : SpellsData cs key) :
    SpellsData key.text.toList key ∧ IsTight key.text.toList := by
  obtain @⟨path, mode, _, _, hpath, -, -⟩ := h
  have hmode := modeText_text mode
  rw [DataKey.text, String.toList_append]
  exact ⟨.intro hpath isBlankText_nil hmode, hpath.isTight.append hmode.isTight⟩

theorem SpellsRaw.canonical {ref : ColumnRef} (h : SpellsRaw cs ref) :
    SpellsRaw ref.rawKey.toList ref ∧ IsTight ref.rawKey.toList := by
  obtain @⟨path, type, _, _, hpath, -, -⟩ := h
  have hname : Path.IsNamed ⟨none, path.column⟩ := ⟨nofun, hpath.2⟩
  rw [ColumnRef.rawKey, String.toList_append]
  cases type with
  | none =>
      have hspells := SpellsRaw.intro hname isBlankText_nil .none
      rw [List.nil_append] at hspells
      refine ⟨hspells, ?_⟩
      rw [typeText, String.toList_empty, List.append_nil]
      exact hname.isTight
  | some type =>
      have hblank : IsBlankText [' '] := List.forall_mem_singleton.mpr rfl
      have hspells := SpellsRaw.intro hname hblank (typeText_name type)
      have htext : (typeText (some type)).toList =
          [' '] ++ ('[' :: type.name.toList ++ [']']) := by
        simp [typeText]
      rw [htext]
      refine ⟨hspells, ?_⟩
      rw [← List.append_assoc]
      exact hname.isTight.append_append (isTight_enclosed rfl rfl _) hname.text_ne_nil (by simp) _

theorem SpellsComparison.canonical {comparison : ColumnComparison} (h : SpellsComparison cs comparison) :
    SpellsComparison comparison.text.toList comparison ∧ IsTight comparison.text.toList := by
  obtain @⟨left, right, hleft, operator, hright⟩ := h
  have htext : (ColumnComparison.text ⟨left.text, operator, right.text⟩).toList =
      left.text.toList ++ ('[' :: operator.text.toList ++ [']'] ++ right.text.toList) := by
    simp [ColumnComparison.text]
  rw [htext]
  refine ⟨.intro hleft operator hright, ?_⟩
  rw [← List.append_assoc]
  exact hleft.isTight.append_append hright.isTight hleft.text_ne_nil hright.text_ne_nil _

/-! Readers. -/

/-- How a reader reads the texts of a grammar, in which texts spell what is found in them: it accepts
these texts and no others, refuses the others in one way, and reads again what it has found in the text
that this is written as. -/
structure ReadsGrammar {α ρ : Type} (read : String → ρ) (found : α → ρ) (Spells : String → α → Prop)
    (Refusal : String → ρ → Prop) (written : α → String) : Prop where
  accepts : ∀ key a, read key = found a ↔ Spells key a
  unique : ∀ key a b, Spells key a → Spells key b → a = b
  refuses : ∀ key, (∀ a, ¬Spells key a) → Refusal key (read key)
  canonical : ∀ key a, read key = found a → read (written a) = found a

theorem ReadsGrammar.of_accepts {α ρ : Type} {read : String → ρ} {found : α → ρ}
    {Spells : String → α → Prop} {Refusal : String → ρ → Prop} {written : α → String}
    (hfound : Function.Injective found) (haccepts : ∀ key a, read key = found a ↔ Spells key a)
    (hrefuses : ∀ key, (∃ a, read key = found a) ∨ Refusal key (read key))
    (hwritten : ∀ key a, Spells key a → Spells (written a) a) :
    ReadsGrammar read found Spells Refusal written where
  accepts := haccepts
  unique key a b ha hb := hfound (((haccepts key a).mpr ha).symm.trans ((haccepts key b).mpr hb))
  refuses key hnone := (hrefuses key).resolve_left fun ⟨a, ha⟩ => hnone a ((haccepts key a).mp ha)
  canonical key a h := (haccepts _ a).mpr (hwritten key a ((haccepts key a).mp h))

theorem ok_injective {ε α : Type} : Function.Injective (Except.ok : α → Except ε α) :=
  fun _ _ => Except.ok.inj

/-- A reader whose reasons are wrapped as faults finds something or fails with such a fault. -/
theorem orFault_cases {α : Type} (fault : Reason → Fault) (result : Except Reason α) :
    (∃ a, orFault fault result = .ok a) ∨
      ∃ reason, orFault fault result = .error (fault reason) := by
  cases result with
  | ok a => exact .inl ⟨a, rfl⟩
  | error reason => exact .inr ⟨reason, rfl⟩

theorem exists_some_or_none {α : Type} (result : Option α) :
    (∃ a, result = some a) ∨ result = none :=
  (Option.eq_none_or_eq_some result).symm

theorem tableRef_reads :
    ReadsGrammar tableRef .ok (fun key => SpellsTable (trim key.toList))
      (fun key result => result = .error (.invalidIdentifier key .table)) TableRef.text := by
  refine .of_accepts ok_injective (fun key ref => ?_) (fun key => ?_) fun key ref h => ?_
  · rw [← readTableRef?_eq_some_iff (isTight_trim _), tableRef]
    cases readTableRef? (trim key.toList) <;> simp
  · rw [tableRef]
    cases readTableRef? (trim key.toList) with
    | none => exact .inr rfl
    | some ref => exact .inl ⟨ref, rfl⟩
  · rw [h.canonical.2.trim]
    exact h.canonical.1

theorem joinKey_reads :
    ReadsGrammar joinKey .ok (fun key => SpellsJoin (trim key.toList))
      (fun key result => ∃ reason, result = .error (.malformedJoin key reason)) JoinKey.text := by
  refine .of_accepts ok_injective (fun key found => ?_) (fun key => orFault_cases _ _) fun key found h => ?_
  · rw [← readJoinKey_eq_ok_iff, joinKey, orFault_eq_ok]
  · rw [h.canonical.2.trim]
    exact h.canonical.1

theorem dataKey_reads :
    ReadsGrammar (fun key => dataKey (.str key)) .ok (fun key => SpellsData (trim key.toList))
      (fun key result => ∃ reason, result = .error (.malformedColumn key reason .set))
      DataKey.text := by
  refine .of_accepts ok_injective (fun key found => ?_) (fun key => orFault_cases _ _) fun key found h => ?_
  · rw [← readDataKey_eq_ok_iff, dataKey, orFault_eq_ok]
  · rw [h.canonical.2.trim]
    exact h.canonical.1

theorem rawColumnKey_reads :
    ReadsGrammar rawColumnKey .ok (fun key => SpellsRaw (trim key.toList))
      (fun key result => ∃ reason, result = .error (.malformedColumn key reason .select))
      ColumnRef.rawKey := by
  refine .of_accepts ok_injective (fun key ref => ?_) (fun key => orFault_cases _ _) fun key ref h => ?_
  · rw [← readRawColumnKey_eq_ok_iff (isTight_trim _), rawColumnKey, orFault_eq_ok]
  · rw [h.canonical.2.trim]
    exact h.canonical.1

theorem columnComparison?_reads :
    ReadsGrammar columnComparison? some (fun key => SpellsComparison (trim key.toList))
      (fun _ result => result = none) ColumnComparison.text := by
  refine .of_accepts (fun _ _ => Option.some.inj) (fun key found => columnComparison?_eq_some_iff)
    (fun key => exists_some_or_none _) fun key found h => ?_
  rw [h.canonical.2.trim]
  exact h.canonical.1

theorem logicalKey?_reads :
    ReadsGrammar logicalKey? some (fun key => SpellsLogical key.toList)
      (fun _ result => result = none) Connective.text :=
  .of_accepts (fun _ _ => Option.some.inj) (fun _ _ => logicalKey?_eq_some_iff)
    (fun _ => exists_some_or_none _) fun _ connective _ => .word connective

/-- The readers of table references, join keys, data keys, keys of raw columns, comparisons and logical
keys accept the texts of their grammars and no others, and find the one thing that such a text spells.
Every other text is refused with the fault of its kind, or is no comparison or logical key. What was found
is written as a text that is read as the same again. -/
theorem grammars_accepted_and_canonical :
    ReadsGrammar tableRef .ok (fun key => SpellsTable (trim key.toList))
      (fun key result => result = .error (.invalidIdentifier key .table)) TableRef.text ∧
    ReadsGrammar joinKey .ok (fun key => SpellsJoin (trim key.toList))
      (fun key result => ∃ reason, result = .error (.malformedJoin key reason)) JoinKey.text ∧
    ReadsGrammar (fun key => dataKey (.str key)) .ok (fun key => SpellsData (trim key.toList))
      (fun key result => ∃ reason, result = .error (.malformedColumn key reason .set))
      DataKey.text ∧
    ReadsGrammar rawColumnKey .ok (fun key => SpellsRaw (trim key.toList))
      (fun key result => ∃ reason, result = .error (.malformedColumn key reason .select))
      ColumnRef.rawKey ∧
    ReadsGrammar columnComparison? some (fun key => SpellsComparison (trim key.toList))
      (fun _ result => result = none) ColumnComparison.text ∧
    ReadsGrammar logicalKey? some (fun key => SpellsLogical key.toList)
      (fun _ result => result = none) Connective.text :=
  ⟨tableRef_reads, joinKey_reads, dataKey_reads, rawColumnKey_reads, columnComparison?_reads,
    logicalKey?_reads⟩

/-- The key of a raw column with nothing in its brackets but the name of a type. -/
def IsPlainRawKey (cs : List Char) : Prop :=
  ∃ path gap, Path.IsNamed path ∧ IsBlankText gap ∧ (cs = path.text.toList ++ gap ∨
    ∃ name type, NamesType name type ∧ cs = path.text.toList ++ gap ++ ('[' :: name ++ [']']))

/-- Blanks around the type in the brackets of a raw column's key do not count. -/
theorem blanks_around_type_accepted :
    rawColumnKey "total[ Int ]" = .ok ⟨none, "total", some "total", some .int⟩ ∧
      ¬IsPlainRawKey (trim "total[ Int ]".toList) := by
  refine ⟨by rfl, ?_⟩
  have htrim : trim "total[ Int ]".toList = "total[ Int ".toList ++ [']'] := by decide
  rw [htrim]
  rintro ⟨path, gap, hpath, hgap, hplain | ⟨name, type, hname, htyped⟩⟩
  · have hopen : '[' ∈ path.text.toList ++ gap := hplain ▸ by decide
    rcases List.mem_append.mp hopen with hmem | hmem
    · cases hpath.isStemChar_text _ hmem
    · cases hgap _ hmem
  · rw [← List.append_assoc] at htyped
    have hbehind := congrArg List.getLast? (List.append_cancel_right htyped)
    rw [List.getLast?_append_cons] at hbehind
    rcases List.mem_cons.mp (List.mem_of_getLast? hbehind.symm) with heq | hmem
    · cases heq
    · cases isNameChar_of_namesType hname _ hmem

end Key

end QueryLoom
