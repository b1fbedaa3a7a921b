import QueryLoom.Proofs.Keys.Pieces
import QueryLoom.Proofs.Lexing.Splicing
import QueryLoom.Proofs.Renumbering.Following

/-!
What splicing does to a fragment. Every placeholder that begins outside quotes gives way to its
quoted identifier, whose name always passes the check of names, and every other character is copied.
A quoted identifier closes the quote that it opens and brings no angle bracket outside of it, so the
text that comes out has no placeholders left.
-/

namespace QueryLoom

open Key

/-! Reading placeholders. -/

namespace Key

variable {rest : List Char} {path : Path}

/-- A path of identifiers is read up to the bracket behind it. -/
theorem takePath?_bracket (h : path.IsNamed) (rest : List Char) :
    takePath? (path.text.toList ++ '>' :: rest) = some (path, '>' :: rest) :=
  h.takePath?_append (by simp [EndsPath]; rfl)

theorem Path.IsNamed.isQuote_text (h : path.IsNamed) :
    ∀ c ∈ '<' :: path.text.toList ++ ['>'], Fragment.isQuote c = false := by
  have hname : ∀ c, isNameChar c = true → Fragment.isQuote c = false := by
    intro c hc
    simp only [Fragment.isQuote, Bool.or_eq_false_iff, beq_eq_false_iff_ne]
    refine ⟨⟨?_, ?_⟩, ?_⟩ <;> rintro rfl <;> cases hc
  have hchars := (Fragment.takePath?_append (takePath?_bracket h [])).2
  intro c hc
  rcases List.mem_cons.mp hc with rfl | hc
  · rfl
  · rcases List.mem_append.mp hc with hc | hc
    · rcases hchars c hc with hc | rfl
      · exact hname c hc
      · rfl
    · rw [List.mem_singleton.mp hc]
      rfl

end Key

namespace Fragment

variable {tablePrefix : String} {quote : Option Char} {cs rest written before : List Char}
  {path : Path} {part : Part} {ps : List Part}

theorem takePlaceholder?_eq_some_iff :
    takePlaceholder? cs = some (path, rest) ↔
      path.IsNamed ∧ cs = path.text.toList ++ '>' :: rest := by
  constructor
  · intro h
    refine ⟨?_, (takePlaceholder?_append h).1⟩
    unfold takePlaceholder? at h
    split at h
    · next hpath =>
        cases h
        exact .of_takePath? hpath
    · cases h
  · rintro ⟨hnamed, rfl⟩
    rw [takePlaceholder?, takePath?_bracket hnamed]
    rfl

/-- A text begins with the placeholder of a path. -/
def Begins (path : Path) (cs : List Char) : Prop :=
  path.IsNamed ∧ ∃ rest, cs = '<' :: (path.text.toList ++ '>' :: rest)

theorem begins_iff {c : Char} :
    Begins path (c :: cs) ↔ c = '<' ∧ ∃ rest, takePlaceholder? cs = some (path, rest) := by
  simp only [Begins, takePlaceholder?_eq_some_iff, List.cons.injEq]
  constructor
  · rintro ⟨hnamed, rest, rfl, rfl⟩
    exact ⟨rfl, rest, hnamed, rfl⟩
  · rintro ⟨rfl, rest, hnamed, rfl⟩
    exact ⟨hnamed, rest, rfl, rfl⟩

/-- What is put out for some parts. -/
def output (tablePrefix : String) (ps : List Part) : List Char :=
  ps.flatMap fun part => (text tablePrefix part).toList

theorem toList_expand (tablePrefix sql : String) :
    (expand tablePrefix sql).toList = output tablePrefix (parts [] none sql.toList) := by
  simp [expand, output, String.toList_join, List.flatMap_map]

theorem output_cons (part : Part) (ps : List Part) :
    output tablePrefix (part :: ps) = (text tablePrefix part).toList ++ output tablePrefix ps :=
  List.flatMap_cons

theorem output_verbatim (c : Char) (ps : List Part) :
    output tablePrefix (.verbatim c :: ps) = c :: output tablePrefix ps := by
  rw [output_cons, text, String.toList_singleton]
  rfl

/-! The word before a placeholder. -/

/-- Two texts, nearest character first, in front of which every text ends in the same word. -/
def SameWord (before written : List Char) : Prop :=
  ∀ cs, followsTableKeyword (cs ++ before) = followsTableKeyword (cs ++ written)

theorem SameWord.cons (h : SameWord before written) (c : Char) :
    SameWord (c :: before) (c :: written) := by
  intro cs
  have happend := h (cs ++ [c])
  rwa [List.append_assoc, List.append_assoc] at happend

/-- A character that is neither blank nor of a word ends the word. -/
theorem followsTableKeyword_append_cons {c : Char} (hblank : Text.isBlank c = false)
    (hword : isKeywordChar c = false) (cs before : List Char) :
    followsTableKeyword (cs ++ c :: before) = followsTableKeyword cs := by
  have hdrop : (cs ++ c :: before).dropWhile Text.isBlank =
      cs.dropWhile Text.isBlank ++ c :: before := by
    induction cs with
    | nil => exact List.dropWhile_cons_of_neg (by simp [hblank])
    | cons d cs ih => by_cases hd : Text.isBlank d = true <;> simp [hd, ih]
  have htake : ∀ ds : List Char, (ds ++ c :: before).takeWhile isKeywordChar =
      ds.takeWhile isKeywordChar := by
    intro ds
    induction ds with
    | nil => exact List.takeWhile_cons_of_neg (by simp [hword])
    | cons d ds ih => by_cases hd : isKeywordChar d = true <;> simp [hd, ih]
  simp only [followsTableKeyword, hdrop, htake]

theorem SameWord.of_cons {c d : Char} (hc : Text.isBlank c = false ∧ isKeywordChar c = false)
    (hd : Text.isBlank d = false ∧ isKeywordChar d = false) (before written : List Char) :
    SameWord (c :: before) (d :: written) := fun cs => by
  rw [followsTableKeyword_append_cons hc.1 hc.2, followsTableKeyword_append_cons hd.1 hd.2]

/-! The reading of a text. -/

/-- The parts of a text, behind a text that has been put out and with the quote that is open. -/
inductive Reads (tablePrefix : String) :
    Option Char → List Char → List Char → List Part → Prop
  | done {quote : Option Char} {written : List Char} : Reads tablePrefix quote written [] []
  | placeholder {written rest : List Char} {path : Path} {ps : List Part} (hpath : path.IsNamed)
      (h : Reads tablePrefix none
        (written ++ (text tablePrefix (placeholderPart written.reverse path)).toList) rest ps) :
      Reads tablePrefix none written ('<' :: (path.text.toList ++ '>' :: rest))
        (placeholderPart written.reverse path :: ps)
  | verbatim {quote : Option Char} {written rest : List Char} {c : Char} {ps : List Part}
      (hnone : quote = none → ∀ path, ¬ Begins path (c :: rest))
      (h : Reads tablePrefix (toggle quote c) (written ++ [c]) rest ps) :
      Reads tablePrefix quote written (c :: rest) (.verbatim c :: ps)

/-- For a placeholder one identifier is put out, or two with a dot between them. -/
theorem text_placeholderPart (tablePrefix : String) (before : List Char) (path : Path) :
    (∃ name, text tablePrefix (placeholderPart before path) = quotedIdentifier name) ∨
      ∃ owner name, text tablePrefix (placeholderPart before path) =
        quotedIdentifier owner ++ "." ++ quotedIdentifier name := by
  obtain ⟨owner, name⟩ := path
  unfold placeholderPart
  cases owner with
  | some owner => exact .inr ⟨tablePrefix ++ owner, name, rfl⟩
  | none =>
      dsimp only
      split
      · exact .inl ⟨tablePrefix ++ name, rfl⟩
      · exact .inl ⟨name, rfl⟩

theorem exists_concat_quotedIdentifier (name : String) :
    ∃ inner, (quotedIdentifier name).toList = inner ++ ['"'] := by
  rw [quotedIdentifier, String.toList_ofList]
  exact ⟨_, rfl⟩

/-- What is put out for a placeholder ends in a quote. -/
theorem exists_text_placeholderPart (tablePrefix : String) (before : List Char) (path : Path) :
    ∃ inner, (text tablePrefix (placeholderPart before path)).toList = inner ++ ['"'] := by
  rcases text_placeholderPart tablePrefix before path with ⟨name, htext⟩ | ⟨owner, name, htext⟩
  · rw [htext]
    exact exists_concat_quotedIdentifier name
  · obtain ⟨inner, hinner⟩ := exists_concat_quotedIdentifier name
    rw [htext, String.toList_append, hinner]
    exact ⟨_, (List.append_assoc _ _ _).symm⟩

theorem placeholderPart_congr (h : SameWord before written) (path : Path) :
    placeholderPart before path = placeholderPart written path := by
  have hword : followsTableKeyword before = followsTableKeyword written := h []
  rw [placeholderPart, placeholderPart, hword]

/-- The splicer reads a text so. -/
theorem reads_parts (hword : SameWord before written.reverse) :
    Reads tablePrefix quote written cs (parts before quote cs) := by
  -- the characters before a placeholder are kept the other way round, and only since the last one
  fun_induction parts before quote cs generalizing written with
  | case1 => exact .done
  | case2 before c rest q ih =>
      refine .verbatim nofun (ih ?_)
      rw [List.reverse_append]
      exact hword.cons c
  | case3 before c rest hquote ih =>
      have hbracket : c ≠ '<' := by
        rintro rfl
        cases hquote
      refine .verbatim (fun _ path hbegins => hbracket (begins_iff.mp hbegins).1) ?_
      rw [toggle_quote hquote]
      refine ih ?_
      rw [List.reverse_append]
      exact hword.cons c
  | case4 before c rest hquote hbracket path after htaken _ ih =>
      obtain rfl : c = '<' := by simpa using hbracket
      obtain ⟨hnamed, rfl⟩ := takePlaceholder?_eq_some_iff.mp htaken
      rw [placeholderPart_congr hword]
      refine .placeholder hnamed (ih ?_)
      obtain ⟨inner, hinner⟩ := exists_text_placeholderPart tablePrefix written.reverse path
      rw [hinner, List.reverse_append, List.reverse_append]
      exact .of_cons (by decide) (by decide) _ _
  | case5 before c rest hquote hbracket hnone ih =>
      refine .verbatim (fun _ path hbegins => ?_) ?_
      · obtain ⟨-, after, htaken⟩ := begins_iff.mp hbegins
        rw [hnone] at htaken
        cases htaken
      · rw [toggle, if_neg hquote]
        refine ih ?_
        rw [List.reverse_append]
        exact hword.cons c
  | case6 before c rest hquote hbracket ih =>
      refine .verbatim (fun _ path hbegins => ?_) ?_
      · exact hbracket (beq_iff_eq.mpr (begins_iff.mp hbegins).1)
      · rw [toggle, if_neg hquote]
        refine ih ?_
        rw [List.reverse_append]
        exact hword.cons c

theorem Reads.source (h : Reads tablePrefix quote written cs ps) :
    ps.flatMap Part.source = cs := by
  induction h with
  | done => rfl
  | placeholder hpath h ih =>
      rw [List.flatMap_cons, ih, source_placeholderPart]
      simp
  | verbatim hnone h ih =>
      rw [List.flatMap_cons, ih]
      rfl

/-- Some parts of a text are read behind the parts before them. -/
theorem Reads.later {after : List Part}
    (h : Reads tablePrefix quote written cs (ps ++ after)) :
    Reads tablePrefix (quoteAfter quote (ps.flatMap Part.source)) (written ++ output tablePrefix ps)
      (after.flatMap Part.source) after := by
  induction ps generalizing quote written cs with
  | nil =>
      rw [List.nil_append] at h
      rw [h.source]
      simpa [output, quoteAfter] using h
  | cons part ps ih =>
      rw [List.flatMap_cons, quoteAfter_append, output_cons, ← List.append_assoc]
      cases h with
      | placeholder hpath h =>
          rw [source_placeholderPart, quoteAfter_none hpath.isQuote_text]
          exact ih h
      | verbatim hnone h =>
          rw [text, String.toList_singleton]
          exact ih h

/-- How a text falls into parts: outside quotes every placeholder is a part, whose kind follows from
what is put out before it, and every other part is a character. -/
structure Splits (tablePrefix : String) (cs : List Char) (ps : List Part) : Prop where
  source : ps.flatMap Part.source = cs
  placeholder : ∀ before part after path, ps = before ++ part :: after →
    quoteAfter none (before.flatMap Part.source) = none →
    Begins path ((part :: after).flatMap Part.source) →
    part = placeholderPart (output tablePrefix before).reverse path
  verbatim : ∀ before part after, ps = before ++ part :: after →
    ¬ (quoteAfter none (before.flatMap Part.source) = none ∧
      ∃ path, Begins path ((part :: after).flatMap Part.source)) →
    ∃ c, part = .verbatim c

theorem begins_placeholder (hpath : path.IsNamed) (rest : List Char) :
    Begins path ('<' :: (path.text.toList ++ '>' :: rest)) := ⟨hpath, rest, rfl⟩

/-- A text begins with one placeholder at most. -/
theorem Begins.unique {other : Path} (h : Begins path cs) (hother : Begins other cs) :
    path = other := by
  obtain ⟨hnamed, rest, rfl⟩ := h
  obtain ⟨-, more, htaken⟩ := begins_iff.mp hother
  rw [takePlaceholder?_eq_some_iff.mpr ⟨hnamed, rfl⟩] at htaken
  cases htaken
  rfl

theorem splits_parts (tablePrefix : String) (cs : List Char) :
    Splits tablePrefix cs (parts [] none cs) := by
  have hreads : Reads tablePrefix none [] cs (parts [] none cs) := reads_parts fun _ => rfl
  refine ⟨hreads.source, ?_, ?_⟩
  · intro before part after path hparts hquote hbegins
    rw [hparts] at hreads
    have hlater := hreads.later
    rw [hquote, List.nil_append] at hlater
    generalize (part :: after).flatMap Part.source = ahead at hlater hbegins
    cases hlater with
    | placeholder hpath h => rw [(begins_placeholder hpath _).unique hbegins]
    | verbatim hnone h => exact absurd hbegins (hnone rfl path)
  · intro before part after hparts hnone
    rw [hparts] at hreads
    have hlater := hreads.later
    generalize hquote : quoteAfter none (before.flatMap Part.source) = quote at hlater hnone
    generalize (part :: after).flatMap Part.source = ahead at hlater hnone
    cases hlater with
    | placeholder hpath h => exact absurd ⟨rfl, _, begins_placeholder hpath _⟩ hnone
    | verbatim _ h => exact ⟨_, rfl⟩

/-! What is put out. -/

/-- No placeholder begins outside the quotes of a text. -/
inductive HoldsNone : Option Char → List Char → Prop
  | nil {quote : Option Char} : HoldsNone quote []
  | cons {quote : Option Char} {c : Char} {cs : List Char}
      (hnone : quote = none → ∀ path, ¬ Begins path (c :: cs)) (h : HoldsNone (toggle quote c) cs) :
      HoldsNone quote (c :: cs)

theorem parts_of_holdsNone (before : List Char) (h : HoldsNone quote cs) :
    parts before quote cs = cs.map .verbatim := by
  induction h generalizing before with
  | nil => rw [parts, List.map_nil]
  | @cons quote c cs hnone h ih =>
      have hplace : quote = none → c = '<' → takePlaceholder? cs = none := by
        rintro hquote rfl
        refine Option.eq_none_iff_forall_ne_some.mpr ?_
        rintro ⟨path, rest⟩ htaken
        exact hnone hquote path (begins_iff.mpr ⟨rfl, rest, htaken⟩)
      rw [parts_verbatim before quote hplace, ih, List.map_cons]

theorem HoldsNone.cons_of_ne {c : Char} {next : Option Char} (hc : c ≠ '<')
    (htoggle : toggle quote c = next) (h : HoldsNone next cs) : HoldsNone quote (c :: cs) :=
  .cons (fun _ _ hbegins => hc (begins_iff.mp hbegins).1) (htoggle ▸ h)

/-- A quoted identifier closes the quote that it opens. -/
theorem HoldsNone.quotedIdentifier (name : String) (h : HoldsNone none cs) :
    HoldsNone none ((quotedIdentifier name).toList ++ cs) := by
  have hinner : ∀ inner : List Char, HoldsNone (some '"') (doubled '"' inner ++ '"' :: cs) := by
    intro inner
    induction inner with
    | nil => exact .cons_of_ne (by decide) (toggle_self '"') h
    | cons c inner ih =>
        by_cases hc : c = '"'
        · have hpair : HoldsNone none ('"' :: (doubled '"' inner ++ '"' :: cs)) :=
            .cons_of_ne (by decide) (toggle_quote rfl) ih
          rw [hc]
          exact .cons_of_ne (by decide) (toggle_self '"') hpair
        · rw [doubled, List.flatMap_cons, if_neg (by simpa using hc), List.singleton_append,
            List.cons_append]
          exact .cons (fun hquote => absurd hquote (Option.some_ne_none '"'))
            (by rwa [toggle_of_ne hc])
  rw [QueryLoom.quotedIdentifier, String.toList_ofList, List.cons_append, List.cons_append,
    List.append_assoc]
  exact .cons_of_ne (by decide) (toggle_quote rfl) (hinner name.toList)

theorem HoldsNone.placeholderPart (tablePrefix : String) (before : List Char) (path : Path)
    (h : HoldsNone none cs) :
    HoldsNone none ((text tablePrefix (placeholderPart before path)).toList ++ cs) := by
  rcases text_placeholderPart tablePrefix before path with ⟨name, htext⟩ | ⟨owner, name, htext⟩
  · rw [htext]
    exact h.quotedIdentifier name
  · have hname : HoldsNone none ('.' :: ((QueryLoom.quotedIdentifier name).toList ++ cs)) :=
      .cons_of_ne (by decide) rfl (h.quotedIdentifier name)
    have hchars : (QueryLoom.quotedIdentifier owner ++ "." ++ QueryLoom.quotedIdentifier name).toList
        ++ cs = (QueryLoom.quotedIdentifier owner).toList ++
          '.' :: ((QueryLoom.quotedIdentifier name).toList ++ cs) := by
      simp
    rw [htext, hchars]
    exact hname.quotedIdentifier owner

theorem exists_cons_quotedIdentifier (name : String) :
    ∃ inner, (quotedIdentifier name).toList = '"' :: inner := by
  rw [quotedIdentifier, String.toList_ofList]
  exact ⟨_, rfl⟩

theorem text_of_isPlaceholder (tablePrefix : String) (h : part.isPlaceholder = true) :
    ∃ inner, (text tablePrefix part).toList = '"' :: inner := by
  cases part with
  | verbatim c => cases h
  | table name => exact exists_cons_quotedIdentifier (tablePrefix ++ name)
  | column name => exact exists_cons_quotedIdentifier name
  | qualified owner name =>
      obtain ⟨inner, hinner⟩ := exists_cons_quotedIdentifier (tablePrefix ++ owner)
      refine ⟨inner ++ ("." ++ quotedIdentifier name).toList, ?_⟩
      rw [text, String.append_assoc, String.toList_append, hinner, List.cons_append]

/-- Up to the first double quote that is put out, nothing has been replaced. -/
theorem source_of_output {front more : List Char} (h : output tablePrefix ps = front ++ more)
    (hfront : '"' ∉ front) : ∃ more', ps.flatMap Part.source = front ++ more' := by
  induction front generalizing ps with
  | nil => exact ⟨_, rfl⟩
  | cons c front ih =>
      cases ps with
      | nil => cases h
      | cons part ps =>
          by_cases hplaceholder : part.isPlaceholder = true
          · obtain ⟨inner, hinner⟩ := text_of_isPlaceholder tablePrefix hplaceholder
            rw [output_cons, hinner] at h
            obtain ⟨rfl, -⟩ := List.cons.inj h
            exact absurd List.mem_cons_self hfront
          · cases part with
            | verbatim d =>
                rw [output_verbatim] at h
                obtain ⟨rfl, hrest⟩ := List.cons.inj h
                obtain ⟨more', hmore⟩ := ih hrest fun hmem => hfront (List.mem_cons_of_mem _ hmem)
                exact ⟨more', by rw [List.flatMap_cons, hmore]; rfl⟩
            | _ => exact absurd rfl hplaceholder

/-- A placeholder in what is put out was one of the text already. -/
theorem Begins.of_output {c : Char} (h : Begins path (c :: output tablePrefix ps)) :
    Begins path (c :: ps.flatMap Part.source) := by
  obtain ⟨hnamed, rest, hrest⟩ := h
  obtain ⟨rfl, hout⟩ := List.cons.inj hrest
  have hquote : '"' ∉ path.text.toList ++ ['>'] := fun hmem => by
    cases hnamed.isQuote_text '"' (List.mem_cons_of_mem _ hmem)
  rw [List.append_cons] at hout
  obtain ⟨more, hmore⟩ := source_of_output hout hquote
  refine ⟨hnamed, more, ?_⟩
  rw [hmore]
  simp

theorem Reads.holdsNone_output (h : Reads tablePrefix quote written cs ps) :
    HoldsNone quote (output tablePrefix ps) := by
  induction h with
  | done => exact .nil
  | placeholder hpath h ih =>
      rw [output_cons]
      exact ih.placeholderPart tablePrefix _ _
  | verbatim hnone h ih =>
      rw [output_verbatim]
      refine .cons (fun hquote path hbegins => hnone hquote path ?_) ih
      rw [← h.source]
      exact hbegins.of_output

theorem output_verbatims (tablePrefix : String) (cs : List Char) :
    output tablePrefix (cs.map .verbatim) = cs := by
  induction cs with
  | nil => rfl
  | cons c cs ih => rw [List.map_cons, output_verbatim, ih]

/-- What has been expanded is left as it is, whatever the prefix. -/
theorem expand_expand (other tablePrefix sql : String) :
    expand other (expand tablePrefix sql) = expand tablePrefix sql := by
  have hreads : Reads tablePrefix none [] sql.toList (parts [] none sql.toList) :=
    reads_parts fun _ => rfl
  rw [← String.toList_inj, toList_expand other, toList_expand tablePrefix,
    parts_of_holdsNone [] hreads.holdsNone_output, output_verbatims]

/-! The check of names. -/

/-- What is put out for a part, with its name checked. -/
def Part.checked (tablePrefix : String) : Part → Except Fault Sql
  | .verbatim c => .ok [.text (String.singleton c)]
  | .table name => Identifier.table tablePrefix (.str name)
  | .column name => Identifier.column tablePrefix (.str name)
  | .qualified owner name => Identifier.column tablePrefix (.str (Path.text ⟨some owner, name⟩))

/-- The text of a fragment with its placeholders expanded, if they pass the check of names. -/
def checkedExpand (tablePrefix sql : String) : Except Fault String := do
  let rows ← (parts [] none sql.toList).mapM (Part.checked tablePrefix)
  return String.join (rows.map Sql.text)

theorem checked_placeholderPart (tablePrefix : String) (before : List Char) (h : path.IsNamed) :
    ∃ row, (placeholderPart before path).checked tablePrefix = .ok row ∧
      row.text = text tablePrefix (placeholderPart before path) := by
  have hcolumn := Identifier.column_path h tablePrefix
  obtain ⟨owner, name⟩ := path
  unfold placeholderPart
  cases owner with
  | some owner => exact ⟨_, hcolumn, by simp [Path.quoted, Sql.text, Piece.toText, text, String.append_assoc]⟩
  | none =>
      have hsingle : ∀ s, Sql.text [.name s] = quotedIdentifier s := fun s => by
        simp [Sql.text, Piece.toText]
      dsimp only
      split
      · exact ⟨_, Identifier.table_of_isIdentifier h.2 tablePrefix, hsingle _⟩
      · exact ⟨_, hcolumn, hsingle _⟩

theorem Reads.checked (h : Reads tablePrefix quote written cs ps) :
    ∃ rows, ps.mapM (Part.checked tablePrefix) = .ok rows ∧
      rows.map Sql.text = ps.map (text tablePrefix) := by
  induction h with
  | done => exact ⟨[], rfl, rfl⟩
  | @placeholder written _ path _ hpath h ih =>
      obtain ⟨rows, hrows, htexts⟩ := ih
      obtain ⟨row, hrow, htext⟩ := checked_placeholderPart tablePrefix written.reverse hpath
      refine ⟨row :: rows, ?_, by rw [List.map_cons, List.map_cons, htext, htexts]⟩
      rw [List.mapM_cons, hrow, hrows]
      rfl
  | @verbatim _ _ _ c _ hnone h ih =>
      obtain ⟨rows, hrows, htexts⟩ := ih
      refine ⟨[.text (String.singleton c)] :: rows, ?_, ?_⟩
      · rw [List.mapM_cons, hrows]
        rfl
      · rw [List.map_cons, List.map_cons, htexts]
        simp [Sql.text, Piece.toText, text]

theorem checkedExpand_eq (tablePrefix sql : String) :
    checkedExpand tablePrefix sql = .ok (expand tablePrefix sql) := by
  have hreads : Reads tablePrefix none [] sql.toList (parts [] none sql.toList) :=
    reads_parts fun _ => rfl
  obtain ⟨rows, hrows, htexts⟩ := hreads.checked
  rw [checkedExpand, hrows]
  change Except.ok (String.join (rows.map Sql.text)) = _
  rw [htexts, expand]

end Fragment

namespace Compile

/-- A raw fragment with its placeholders checked and expanded and its parameters bound. -/
def checkedSplice (tablePrefix sql : String) (parameters : Dict) : Compile Sql := do
  let expanded ← lift (Fragment.checkedExpand tablePrefix sql)
  merge parameters
  return [.fragment expanded]

theorem checkedSplice_eq (tablePrefix sql : String) (parameters : Dict) :
    checkedSplice tablePrefix sql parameters = splice tablePrefix sql parameters := by
  rw [checkedSplice, Fragment.checkedExpand_eq]
  rfl

/-- The faults of binding parameters: two values of one name that are unequal or cannot be compared,
and names and values without a text. -/
def IsBindingFault (fault : Fault) : Prop :=
  fault = .badValue ∨ fault = .invalidOperation ∨
    ∃ name existing value, fault = .duplicateParameter name existing value

theorem IsBindingFault.showing {v : Value} {fault : Fault} (h : IsBindingFault fault) :
    IsBindingFault (.showing v fault) := by
  unfold Fault.showing
  split_ifs
  · exact h
  · exact .inl rfl

theorem isBindingFault_of_bindName {name : String} {value : Value} {s u : Parameters}
    {fault : Fault} (h : (ExceptT.run (bindName name value)).run s = (.error fault, u)) :
    IsBindingFault fault := by
  rw [Renumbering.run_bindName] at h
  split at h
  · split at h
    · cases h
    · cases h
      exact .showing (.showing (.inr (.inr ⟨_, _, _, rfl⟩)))
    · cases h
      exact .inr (.inl rfl)
  · cases h

theorem isBindingFault_of_requireText {v : Value} {s u : Parameters} {fault : Fault}
    (h : (ExceptT.run (requireText v)).run s = (.error fault, u)) : IsBindingFault fault := by
  unfold requireText Value.checkText at h
  split_ifs at h
  · cases h
  · cases h
    exact .inl rfl

/-- A step after which another one may fail too. -/
theorem isBindingFault_of_bind {α β : Type} {m : Compile α} {k : α → Compile β} {s u : Parameters}
    {fault : Fault}
    (hm : ∀ {v first}, (ExceptT.run m).run s = (.error first, v) → IsBindingFault first)
    (hk : ∀ {a v}, (ExceptT.run (k a)).run v = (.error fault, u) → IsBindingFault fault)
    (h : (ExceptT.run (m >>= k)).run s = (.error fault, u)) : IsBindingFault fault := by
  rw [ExceptT.run_bind, StateT.run_bind] at h
  rcases hfirst : (ExceptT.run m).run s with ⟨first | _, v⟩
  · rw [hfirst] at h
    cases h
    exact hm hfirst
  · rw [hfirst] at h
    exact hk h

theorem isBindingFault_of_merge {parameters : Dict} {s u : Parameters} {fault : Fault}
    (h : (ExceptT.run (merge parameters)).run s = (.error fault, u)) : IsBindingFault fault := by
  induction parameters generalizing s with
  | nil => cases h
  | cons entry parameters ih =>
      exact isBindingFault_of_bind isBindingFault_of_requireText
        (isBindingFault_of_bind isBindingFault_of_bindName ih) h

/-- Splicing fails only where a parameter of the fragment cannot be bound. -/
theorem isBindingFault_of_splice {tablePrefix sql : String} {parameters : Dict} {s u : Parameters}
    {fault : Fault}
    (h : (ExceptT.run (splice tablePrefix sql parameters)).run s = (.error fault, u)) :
    IsBindingFault fault :=
  isBindingFault_of_bind isBindingFault_of_merge (fun hpure => by cases hpure) h

/-- Splicing expands every placeholder outside quotes and copies everything else. The check of names
never fails, and text that has been spliced is left as it is when it is spliced again. -/
theorem splice_complete_and_idempotent (tablePrefix sql : String) (parameters : Dict) :
    (∃ ps, Fragment.Splits tablePrefix sql.toList ps ∧
      (Fragment.expand tablePrefix sql).toList = Fragment.output tablePrefix ps) ∧
    checkedSplice tablePrefix sql parameters = splice tablePrefix sql parameters ∧
    (∀ s u name kind, (ExceptT.run (checkedSplice tablePrefix sql parameters)).run s ≠
      (.error (.invalidIdentifier name kind), u)) ∧
    ∀ other, Fragment.checkedExpand other (Fragment.expand tablePrefix sql) =
      .ok (Fragment.expand tablePrefix sql) := by
  refine ⟨⟨_, Fragment.splits_parts tablePrefix _, Fragment.toList_expand tablePrefix sql⟩,
    checkedSplice_eq tablePrefix sql parameters, ?_, ?_⟩
  · intro s u name kind h
    rw [checkedSplice_eq] at h
    rcases isBindingFault_of_splice h with h | h | ⟨_, _, _, h⟩ <;> cases h
  · intro other
    rw [Fragment.checkedExpand_eq, Fragment.expand_expand]

example : Fragment.expand "p_" "FROM <t> WHERE <<a>> AND <t.b><>'<c>'" =
    "FROM \"p_t\" WHERE <\"a\"> AND \"p_t\".\"b\"<>'<c>'" := by decide +kernel

end Compile

end QueryLoom
