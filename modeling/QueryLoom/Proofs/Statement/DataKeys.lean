import QueryLoom.Key.Data
import QueryLoom.Proofs.Lexing.Tokens
import QueryLoom.Proofs.Prefixes.Keys
import QueryLoom.Proofs.Statement.Written

/-!
The columns of data keys. What stands in a key before its suffix and apart from blanks is its stem, and
the stem is the name of the column. The text of a quoted column tells which column it is, so keys name
one column exactly if they have one stem.
-/

namespace QueryLoom

open Lexer

namespace Key

/-- The name that a path gives, quoted, with the prefix before its table. -/
def Path.quoted (tablePrefix : String) (path : Path) : Sql :=
  match path.table with
  | some table => [.name (tablePrefix ++ table), .text ".", .name path.column]
  | none => [.name path.column]

/-- A path of identifiers. -/
def Path.IsNamed (path : Path) : Prop := (∀ t ∈ path.table, IsIdentifier t) ∧ IsIdentifier path.column

end Key

open Key

/-! Quoting. -/

theorem Identifier.bare_of_isIdentifier {name : String} (h : IsIdentifier name) :
    Identifier.bare (.str name) = .ok [.name name] := by
  rw [bare, check, if_pos (isName_iff.mpr h)]
  rfl

theorem Identifier.table_of_isIdentifier {name : String} (h : IsIdentifier name)
    (tablePrefix : String) :
    Identifier.table tablePrefix (.str name) = .ok [.name (tablePrefix ++ name)] := by
  rw [table, check, if_pos (isName_iff.mpr h)]
  rfl

/-- A path of identifiers can be quoted. -/
theorem Identifier.column_path {path : Path} (h : path.IsNamed) (tablePrefix : String) :
    Identifier.column tablePrefix (.str path.text) = .ok (path.quoted tablePrefix) := by
  obtain ⟨table, column⟩ := path
  obtain ⟨htable, hcolumn⟩ := h
  cases table with
  | none =>
      rw [Path.text, column_of_no_dot hcolumn.no_dot]
      exact bare_of_isIdentifier hcolumn
  | some table =>
      have hname := htable table rfl
      have hchars : (Path.text ⟨some table, column⟩).toList =
          table.toList ++ '.' :: column.toList := by
        simp [Path.text]
      have hlast : ¬column.toList.contains '.' = true := by
        simpa using hcolumn.no_dot
      rw [column_of_dot hchars hname.no_dot, if_neg hlast, String.ofList_toList,
        String.ofList_toList, table_of_isIdentifier hname, bare_of_isIdentifier hcolumn]
      rfl

theorem quotedIdentifier_injective {a b : String} (h : quotedIdentifier a = quotedIdentifier b) :
    a = b := by
  have hchars := congrArg String.toList h
  simp only [quotedIdentifier, String.toList_ofList, List.cons_append, List.cons.injEq, true_and,
    List.append_cancel_right_eq] at hchars
  have hnames := congrArg (SqlToken.decoded false '"') hchars
  rw [SqlToken.decoded_doubled, SqlToken.decoded_doubled] at hnames
  exact String.toList_injective hnames

/-- The text of a quoted path tells the path. -/
theorem Key.Path.text_quoted_injective {tablePrefix : String} {path other : Path} (hpath : path.IsNamed)
    (hother : other.IsNamed) (h : (path.quoted tablePrefix).text = (other.quoted tablePrefix).text) :
    path = other := by
  -- the two texts are read as the same lexemes, a quoted name for each part
  have haligned : ∀ {path : Path}, path.IsNamed → Aligned false (path.quoted tablePrefix) := by
    intro path hnamed
    have hrow : ColumnRow tablePrefix (path.quoted tablePrefix) :=
      .of_column (Identifier.column_path hnamed tablePrefix)
    exact hrow.aligned (t := ⟨.sqlite, tablePrefix⟩) nofun
  have hlex : (path.quoted tablePrefix).lexemes false = (other.quoted tablePrefix).lexemes false := by
    rw [← (haligned hpath).lex, ← (haligned hother).lex, h]
  have hquoted : ∀ {a b : String}, (quotedIdentifier a).toList = (quotedIdentifier b).toList → a = b :=
    fun hab => quotedIdentifier_injective (String.toList_injective hab)
  obtain ⟨table, column⟩ := path
  obtain ⟨table', column'⟩ := other
  cases table with
  | none =>
      cases table' with
      | none =>
          simp only [Path.quoted, Sql.lexemes, Piece.lexemes, List.flatMap_cons, List.flatMap_nil,
            List.append_nil, List.cons.injEq, Lexeme.quoted.injEq, and_true] at hlex
          rw [hquoted hlex]
      | some table' => simp [Path.quoted, Sql.lexemes, Piece.lexemes] at hlex
  | some table =>
      cases table' with
      | none => simp [Path.quoted, Sql.lexemes, Piece.lexemes] at hlex
      | some table' =>
          simp only [Path.quoted, Sql.lexemes, Piece.lexemes, List.flatMap_cons, List.flatMap_nil,
            List.append_nil, List.singleton_append, List.cons.injEq, Lexeme.quoted.injEq,
            List.append_cancel_left_eq, and_true] at hlex
          obtain ⟨htable, hcolumn⟩ := hlex
          rw [hquoted hcolumn, (String.append_right_inj _).mp (hquoted htable)]

/-! Stems. -/

namespace Key

/-- A character of a stem: neither a blank nor the bracket that opens a suffix. -/
def isStemChar (c : Char) : Bool := !Text.isBlank c && c != '['

/-- What stands in a data key before its suffix, without the blanks around it. -/
def stem (key : String) : String := String.ofList ((Text.trim key.toList).takeWhile isStemChar)

theorem takeName_append (cs : List Char) : (takeName cs).1.toList ++ (takeName cs).2 = cs := by
  rw [takeName, String.toList_ofList]
  exact List.takeWhile_append_dropWhile

/-- A path stands at the front of the text that it is read from. -/
theorem takePath?_append {cs rest : List Char} {path : Path} (h : takePath? cs = some (path, rest)) :
    path.text.toList ++ rest = cs := by
  have hfirst := takeName_append cs
  unfold takePath? at h
  dsimp only at h
  split_ifs at h
  split at h
  · next more hmore =>
      have hsecond := takeName_append more
      split_ifs at h
      · obtain ⟨rfl, rfl⟩ := Prod.mk.inj (Option.some.inj h)
        exact hfirst
      · obtain ⟨rfl, rfl⟩ := Prod.mk.inj (Option.some.inj h)
        rw [hmore, ← hsecond] at hfirst
        refine Eq.trans ?_ hfirst
        simp [Path.text]
  · obtain ⟨rfl, rfl⟩ := Prod.mk.inj (Option.some.inj h)
    exact hfirst

/-- What follows the path of a data key does not go on with the stem. -/
theorem takeWhile_suffix {rest after : List Char} {suffix : Option String}
    (h : takeBracketed (skipBlanks rest) = .ok (suffix, after)) (hend : expectEnd after = .ok ()) :
    rest.takeWhile isStemChar = [] := by
  cases rest with
  | nil => rfl
  | cons c more =>
      refine List.takeWhile_cons_of_neg ?_
      by_cases hblank : Text.isBlank c = true
      · simp [isStemChar, hblank]
      · by_cases hopen : c = '['
        · simp [isStemChar, hopen]
        · have hskip : skipBlanks (c :: more) = c :: more := List.dropWhile_cons_of_neg hblank
          rw [hskip, takeBracketed] at h
          · obtain ⟨-, rfl⟩ := Prod.mk.inj (Except.ok.inj h)
            cases hend
          · exact fun tail htail => hopen (List.cons.inj htail).1

theorem isStemChar_of_isNameChar {c : Char} (h : isNameChar c = true) : isStemChar c = true := by
  have hopen : c ≠ '[' := by
    rintro rfl
    cases h
  simp [isStemChar, isBlank_of_isNameChar h, hopen]

theorem Path.IsNamed.isStemChar_text {path : Path} (h : path.IsNamed) :
    ∀ c ∈ path.text.toList, isStemChar c = true := by
  obtain ⟨table, column⟩ := path
  obtain ⟨htable, -, hcolumn⟩ := h
  have hlast : ∀ c ∈ column.toList, isStemChar c = true :=
    fun c hc => isStemChar_of_isNameChar (hcolumn c hc)
  cases table with
  | none => exact hlast
  | some table =>
      have hchars : (Path.text ⟨some table, column⟩).toList =
          table.toList ++ '.' :: column.toList := by
        simp [Path.text]
      rw [hchars, List.forall_mem_append, List.forall_mem_cons]
      exact ⟨fun c hc => isStemChar_of_isNameChar ((htable table rfl).2 c hc), rfl, hlast⟩

/-- A data key is a path with a suffix that may stand after blanks. Its stem is the path. -/
theorem exists_path_of_dataKey {key : String} {parsed : DataKey}
    (h : dataKey (.str key) = .ok parsed) :
    ∃ path : Path, path.IsNamed ∧ parsed.column = path.text ∧ stem key = path.text := by
  rw [dataKey, orFault_eq_ok, readDataKey] at h
  split at h
  · cases h
  · next path rest hpath =>
      simp only [Except.bind_eq_ok] at h
      obtain ⟨⟨suffix, after⟩, hbracket, ⟨⟩, hend, mode, -, h⟩ := h
      obtain rfl := Except.ok.inj h
      have hnone : IsNamePart [] := fun c hc => by cases hc
      obtain ⟨-, hnamed⟩ := takePath?_mark hnone hpath (head?_ne_dot hbracket hend)
      refine ⟨path, hnamed, rfl, ?_⟩
      rw [stem, ← takePath?_append hpath,
        List.takeWhile_append_of_pos (Path.IsNamed.isStemChar_text hnamed),
        takeWhile_suffix hbracket hend, List.append_nil, String.ofList_toList]

theorem exists_str_of_dataKey {key : Value} {parsed : DataKey} (h : dataKey key = .ok parsed) :
    ∃ name, key = .str name := by
  cases key with
  | str name => exact ⟨name, rfl⟩
  | _ => cases h

/-- The column of a data key can be quoted. -/
theorem column_of_dataKey {key : Value} {parsed : DataKey} (h : dataKey key = .ok parsed)
    (tablePrefix : String) : ∃ sql, Identifier.column tablePrefix parsed.column = .ok sql := by
  obtain ⟨name, rfl⟩ := exists_str_of_dataKey h
  obtain ⟨path, hnamed, hcolumn, -⟩ := exists_path_of_dataKey h
  rw [hcolumn]
  exact ⟨_, Identifier.column_path hnamed tablePrefix⟩

end Key

end QueryLoom
