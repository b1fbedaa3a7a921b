import QueryLoom.Proofs.Conditions.Tree
import QueryLoom.Proofs.Lexing.Literal
import QueryLoom.Statement.Tail

/-!
What the tails of statements write. An order by a list of values is the only clause that writes values
into the text, as literals; each of them is read as a whole, whatever value it stands for.
-/

namespace QueryLoom

open Lexer

/-! Fragments without placeholders. -/

theorem Fragment.parts_of_not_mem {cs : List Char} (h : '<' ∉ cs) (before : List Char)
    (quote : Option Char) : Fragment.parts before quote cs = cs.map .verbatim := by
  induction cs generalizing before quote with
  | nil => simp [Fragment.parts]
  | cons c rest ih =>
      simp only [List.mem_cons, not_or] at h
      have hc : ¬(c == '<') = true := by
        simpa using Ne.symm h.1
      rw [Fragment.parts.eq_def]
      cases quote with
      | some q => simp [ih h.2]
      | none =>
          dsimp only
          split_ifs <;> simp [ih h.2]

/-- A fragment without an opening bracket is copied. -/
theorem Fragment.expand_of_not_mem {tablePrefix sql : String} (h : '<' ∉ sql.toList) :
    Fragment.expand tablePrefix sql = sql := by
  have hcopied : ∀ cs : List Char,
      String.join ((cs.map Part.verbatim).map (text tablePrefix)) = String.ofList cs := by
    intro cs
    induction cs with
    | nil => rfl
    | cons c rest ih =>
        rw [List.map_cons, List.map_cons, String.join_cons, ih]
        apply String.toList_injective
        simp [text]
  rw [expand, parts_of_not_mem h, hcopied, String.ofList_toList]

theorem Piece.whole_fragment {backslash : Bool} {s : String} (h : isCode s.toList = true) :
    (Piece.fragment s).Whole backslash :=
  Piece.whole_code (p := .fragment s) h (lex_code h) rfl

/-! Tails. -/

namespace Tail

variable {t : Target} {s u : Parameters} {sql : Sql} {rows : List Sql}

@[simp] theorem yields_malformed {α : Type} {key : String} {reason : Reason} {clause : Clause}
    {a : α} : (malformed key reason clause : Compile α).Yields s a u ↔ False :=
  Compile.yields_throw _

theorem writtenAll_columnList {backslash : Bool} (ht : t.PlainPrefix backslash)
    {columns : List Value} (h : (columnList t columns).Yields s rows u) :
    WrittenAll backslash s rows u := by
  induction columns generalizing s rows with
  | nil =>
      simp only [columnList, Compile.yields_pure] at h
      obtain ⟨rfl, rfl⟩ := h
      exact .nil
  | cons v rest ih =>
      simp only [columnList, Compile.yields_bind, Compile.yields_pure] at h
      obtain ⟨first, _, hfirst, more, _, hmore, rfl, rfl⟩ := h
      exact .cons (written_column ht hfirst) (ih hmore)

theorem written_group {backslash : Bool} (ht : t.PlainPrefix backslash) {v : Value}
    (hv : v.rawFree = true) (h : (group t v).Yields s sql u) : Written backslash s sql u := by
  cases v with
  | raw fragment parameters => cases hv
  | str name => exact written_column ht h
  | list columns =>
      simp only [group, Compile.yields_bind, Compile.yields_pure] at h
      obtain ⟨rows, _, hrows, rfl, rfl⟩ := h
      exact (writtenAll_columnList ht hrows).join rfl
  | bytes octets =>
      simp only [group, Compile.yields_bind, Compile.yields_pure] at h
      obtain ⟨rows, _, hrows, rfl, rfl⟩ := h
      exact (writtenAll_columnList ht hrows).join rfl
  | _ => simp [group] at h

/-- A list of literals in ranks. -/
theorem aligned_ranked {d : Dialect} (values : List Value) (rank : Nat) :
    ∀ row ∈ Dialect.ranked rank (values.map d.literalText), Aligned d.backslashEscapes row := by
  induction values generalizing rank with
  | nil => simp [Dialect.ranked]
  | cons v rest ih =>
      intro row hrow
      rw [List.map_cons, Dialect.ranked, List.mem_cons] at hrow
      rcases hrow with rfl | hrow
      · have hthen : isSpacer (" THEN " ++ toString rank) = true := by
          have hcode : isCode (" THEN ".toList ++ (toString rank).toList) = true :=
            isCode_append rfl (numeral_nat rank).1
          simpa [isSpacer, isSeparator] using hcode
        have hliteral := (Piece.whole_literal d v).aligned
        exact .text rfl (hliteral.between .nil hthen)
      · exact ih (rank + 1) row hrow

/-- A column that is ranked by literals, whatever values they stand for. -/
theorem aligned_customOrder {d : Dialect} {column : Sql}
    (hcolumn : Aligned d.backslashEscapes column) (values : List Value) :
    Aligned d.backslashEscapes (d.customOrder column (values.map d.literalText)) := by
  have hfield : Aligned d.backslashEscapes
      (.text "FIELD(" :: (column ++ .text ", " ::
        (Sql.join ", " ((values.map d.literalText).map fun l => [.literal l]) ++ [.text ")"]))) := by
    have hliterals : ∀ row ∈ (values.map d.literalText).map fun l => [Piece.literal l],
        Aligned d.backslashEscapes row := by
      simp only [List.mem_map]
      rintro _ ⟨_, ⟨v, _, rfl⟩, rfl⟩
      exact (Piece.whole_literal d v).aligned
    have hjoined : Aligned d.backslashEscapes
        (Sql.join ", " ((values.map d.literalText).map fun l => [Piece.literal l])) :=
      .join hliterals rfl
    exact .text rfl (hcolumn.between (hjoined.between .nil rfl) rfl)
  have hcase : Aligned d.backslashEscapes
      (.text "CASE " :: (column ++ .text " " ::
        (Sql.join " " (Dialect.ranked 1 (values.map d.literalText)) ++ [.text " ELSE 0 END"]))) := by
    have hjoined : Aligned d.backslashEscapes
        (Sql.join " " (Dialect.ranked 1 (values.map d.literalText))) :=
      .join (aligned_ranked values 1) rfl
    exact .text rfl (hcolumn.between (hjoined.between .nil rfl) rfl)
  cases d with
  | mysql => simpa [Dialect.customOrder] using hfield
  | sqlite => simpa [Dialect.customOrder] using hcase
  | postgres => simpa [Dialect.customOrder] using hcase

/-- Ranking a column binds nothing. -/
theorem params_customOrder {d : Dialect} {column : Sql} (hcolumn : column.params = [])
    (literals : List String) : (d.customOrder column literals).params = [] := by
  have hranked : ∀ rank, (Dialect.ranked rank literals).flatMap Sql.params = [] := by
    induction literals with
    | nil => simp [Dialect.ranked]
    | cons l rest ih =>
        intro rank
        rw [Dialect.ranked, List.flatMap_cons, ih]
        rfl
  have hliterals : (literals.map fun l => [Piece.literal l]).flatMap Sql.params = [] := by
    simp [Sql.params]
  cases d <;> simp [Dialect.customOrder, hcolumn, Sql.params_join, hranked, hliterals]

theorem written_orderEntry (ht : t.PlainPrefix t.dialect.backslashEscapes) {key v : Value}
    (h : (orderEntry t key v).Yields s sql u) :
    Written t.dialect.backslashEscapes s sql u := by
  unfold orderEntry at h
  split at h
  · exact written_column ht h
  · simp only [Compile.yields_bind] at h
    obtain ⟨column, _, hcolumn, h⟩ := h
    obtain ⟨hrow, rfl⟩ := Target.yields_column hcolumn
    have haligned := hrow.aligned ht
    have hwritten : Written t.dialect.backslashEscapes u column u :=
      .of_aligned haligned hrow.params_eq
    split at h
    · rename_i text _
      cases hdirection : direction? text with
      | none => simp [hdirection] at h
      | some direction =>
          simp only [hdirection, Compile.yields_pure] at h
          obtain ⟨rfl, rfl⟩ := h
          have hmem := List.mem_of_find?_eq_some hdirection
          simp only [List.mem_cons, List.not_mem_nil, or_false] at hmem
          rcases hmem with rfl | rfl
          · exact hwritten.back rfl
          · exact hwritten.back rfl
    · simp only [Compile.yields_bind, Compile.yields_lift, Dialect.mapM_literal_eq_ok,
        Compile.yields_pure] at h
      obtain ⟨_, _, ⟨⟨_, rfl⟩, rfl⟩, rfl, rfl⟩ := h
      exact .of_aligned (aligned_customOrder haligned _) (params_customOrder hrow.params_eq _)
    · simp at h

theorem writtenAll_orderEntries (ht : t.PlainPrefix t.dialect.backslashEscapes) {entries : Dict}
    (h : (orderEntries t entries).Yields s rows u) :
    WrittenAll t.dialect.backslashEscapes s rows u := by
  induction entries generalizing s rows with
  | nil =>
      simp only [orderEntries, Compile.yields_pure] at h
      obtain ⟨rfl, rfl⟩ := h
      exact .nil
  | cons entry rest ih =>
      simp only [orderEntries, Compile.yields_bind, Compile.yields_pure] at h
      obtain ⟨first, _, hfirst, more, _, hmore, rfl, rfl⟩ := h
      exact .cons (written_orderEntry ht hfirst) (ih hmore)

/-- The orders by one item of a list. -/
def orderItem (t : Target) : Value → Compile (List Sql)
  | .str name => do return [← t.column name]
  | .dict entries => orderEntries t entries
  | .raw sql parameters => do return [← t.splice sql parameters]
  | other => throw (.showing other (.malformedCondition orderKey (.badOrderEntry other) .orderBy))

theorem orderItems_cons (v : Value) (rest : List Value) :
    orderItems t (v :: rest) = (do
      let first ← orderItem t v
      return first ++ (← orderItems t rest)) := by
  cases v <;> simp [orderItems, orderItem]

theorem writtenAll_orderItems (ht : t.PlainPrefix t.dialect.backslashEscapes) {items : List Value}
    (hitems : ∀ v ∈ items, v.rawFree = true) (h : (orderItems t items).Yields s rows u) :
    WrittenAll t.dialect.backslashEscapes s rows u := by
  induction items generalizing s rows with
  | nil =>
      simp only [orderItems, Compile.yields_pure] at h
      obtain ⟨rfl, rfl⟩ := h
      exact .nil
  | cons v rest ih =>
      simp only [orderItems_cons, Compile.yields_bind, Compile.yields_pure] at h
      obtain ⟨first, w, hfirst, more, _, hmore, rfl, rfl⟩ := h
      have hrest := ih (fun v hv => hitems v (by simp [hv])) hmore
      refine WrittenAll.append ?_ hrest
      cases v with
      | str name =>
          simp only [orderItem, Compile.yields_bind, Compile.yields_pure] at hfirst
          obtain ⟨column, _, hcolumn, rfl, rfl⟩ := hfirst
          exact (written_column ht hcolumn).single
      | dict entries => exact writtenAll_orderEntries ht hfirst
      | raw fragment parameters => cases hitems (.raw fragment parameters) (by simp)
      | _ => simp [orderItem] at hfirst

/-- What rows are ordered by: a value without raw ones, or the random function. -/
theorem written_order (ht : t.PlainPrefix t.dialect.backslashEscapes) {v : Value}
    (hv : v.rawFree = true ∨ v = .raw t.dialect.randomFunction [])
    (h : (order t v).Yields s sql u) : Written t.dialect.backslashEscapes s sql u := by
  rcases hv with hv | rfl
  · cases v with
    | raw fragment parameters => cases hv
    | str name => exact written_column ht h
    | dict entries =>
        simp only [order, Compile.yields_bind, Compile.yields_pure] at h
        obtain ⟨rows, _, hrows, rfl, rfl⟩ := h
        exact (writtenAll_orderEntries ht hrows).join rfl
    | list items =>
        simp only [order, Compile.yields_bind, Compile.yields_pure] at h
        obtain ⟨rows, _, hrows, rfl, rfl⟩ := h
        exact (writtenAll_orderItems ht (Value.rawFree_list hv) hrows).join rfl
    | bytes octets =>
        simp only [order, Compile.yields_bind, Compile.yields_pure] at h
        obtain ⟨rows, _, hrows, rfl, rfl⟩ := h
        exact (writtenAll_orderItems ht (Value.rawFree_octets octets) hrows).join rfl
    | _ => simp [order] at h
  · simp only [order, Target.splice, Compile.splice, Compile.merge, Compile.yields_bind,
      Compile.yields_pure] at h
    obtain ⟨_, _, ⟨_, rfl⟩, rfl, rfl⟩ := h
    refine .of_aligned (Piece.Whole.aligned (Piece.whole_fragment ?_)) rfl
    rw [Fragment.expand_of_not_mem (by cases t.dialect <;> decide)]
    cases t.dialect <;> rfl

/-- The number of rows is written as digits. -/
theorem written_limit {backslash : Bool} {v : Value} (h : (limit v).Yields s sql u) :
    Written backslash s sql u := by
  have hdigits : ∀ (word : String) (n : Nat), isCode word.toList = true →
      isCode (word ++ toString n).toList = true := by
    intro word n hword
    rw [String.toList_append]
    exact isCode_append hword (numeral_nat n).1
  unfold limit at h
  dsimp only at h
  split at h
  · split at h
    · rename_i offset size _ _
      simp only [Compile.yields_bind, Compile.yields_requireText, Compile.yields_pure] at h
      obtain ⟨_, _, ⟨_, rfl⟩, rfl, rfl⟩ := h
      have hsize : isCode ("LIMIT " ++ toString size ++ " OFFSET ").toList = true := by
        rw [String.toList_append]
        exact isCode_append (hdigits "LIMIT " size rfl) rfl
      exact .of_aligned (.text (hdigits _ offset hsize) .nil) rfl
    · simp at h
  · split at h
    · rename_i size _
      simp only [Compile.yields_bind, Compile.yields_requireText, Compile.yields_pure] at h
      obtain ⟨_, _, ⟨_, rfl⟩, rfl, rfl⟩ := h
      exact .of_aligned (.text (hdigits "LIMIT " size rfl) .nil) rfl
    · simp at h

theorem writtenAll_whenTruthy {backslash : Bool} {v : Value} {keyword : String}
    {body : Value → Compile Sql} (hkeyword : isCode keyword.toList = true)
    (hbody : ∀ {sql}, (body v).Yields s sql u → Written backslash s sql u)
    (h : (whenTruthy v keyword body).Yields s rows u) : WrittenAll backslash s rows u := by
  unfold whenTruthy at h
  split_ifs at h
  · simp only [Compile.yields_bind, Compile.yields_pure] at h
    obtain ⟨row, _, hrow, rfl, rfl⟩ := h
    exact ((hbody hrow).front hkeyword).single
  · rw [Compile.yields_pure] at h
    obtain ⟨rfl, rfl⟩ := h
    exact .nil

theorem having_eq {v : Value} (hv : ∀ fragment parameters, v ≠ .raw fragment parameters) :
    having t v = Conditions.compile ⟨t, .having⟩ .and v := by
  cases v with
  | raw fragment parameters => exact absurd rfl (hv fragment parameters)
  | _ => rfl

theorem written_having {backslash : Bool} (ht : t.PlainPrefix backslash) {v : Value}
    (hs : s.NamesTokens) (hv : v.rawFree = true) (h : (having t v).Yields s sql u) :
    Written backslash s sql u := by
  have hne : ∀ fragment parameters, v ≠ .raw fragment parameters := by
    rintro fragment parameters rfl
    cases hv
  rw [having_eq hne] at h
  exact Conditions.written_compile (p := ⟨t, .having⟩) ht hs hv h

/-- Entries without raw values, except for a random order. -/
def Trusted (t : Target) (entries : Dict) : Prop :=
  ∀ entry ∈ entries, entry.2.rawFree = true ∨
    entry = (.str orderKey, .raw t.dialect.randomFunction [])

theorem Trusted.conditions {entries : Dict} (h : Trusted t entries) :
    (Value.dict (conditionEntries entries)).rawFree = true := by
  rw [Value.rawFree_dict]
  intro entry hentry
  obtain ⟨hmem, hreserved⟩ := List.mem_filter.mp hentry
  rcases h entry hmem with hfree | rfl
  · exact hfree
  · cases hreserved

theorem Trusted.getD {entries : Dict} (h : Trusted t entries) (key : String) :
    (Dict.getD entries key).rawFree = true ∨
      key = orderKey ∧ Dict.getD entries key = .raw t.dialect.randomFunction [] := by
  unfold Dict.getD Dict.get?
  cases hget : Assoc.get? (Value.str key) entries with
  | none => exact .inl rfl
  | some v =>
      obtain ⟨k, hmem, hkey⟩ := Assoc.mem_of_get? hget
      rcases h _ hmem with hfree | heq
      · exact .inl hfree
      · cases heq
        rw [Value.str_beq_str, beq_iff_eq] at hkey
        exact .inr ⟨hkey.symm, rfl⟩

theorem Trusted.getD_rawFree {entries : Dict} (h : Trusted t entries) {key : String}
    (hkey : key ≠ orderKey) : (Dict.getD entries key).rawFree = true := by
  rcases h.getD key with hfree | ⟨heq, _⟩
  · exact hfree
  · exact absurd heq hkey

/-- The entries of a tail are an aligned row of what they bind. -/
theorem written_compile_dict (ht : t.PlainPrefix t.dialect.backslashEscapes) {entries : Dict}
    (hs : s.NamesTokens) (hentries : Trusted t entries)
    (h : (compile t (.dict entries)).Yields s sql u) :
    Written t.dialect.backslashEscapes s sql u := by
  simp only [compile, Compile.yields_bind] at h
  obtain ⟨filter, s₁, hfilter, groupBy, s₂, hgroup, having, s₃, hhaving, orderBy, s₄, horder,
    hlimit⟩ := h
  have hfilter' : WrittenAll t.dialect.backslashEscapes s filter s₁ :=
    writtenAll_whenTruthy rfl
      (Conditions.written_compile (p := ⟨t, .filter⟩) ht hs hentries.conditions) hfilter
  have hgroup' : WrittenAll t.dialect.backslashEscapes s₁ groupBy s₂ :=
    writtenAll_whenTruthy rfl (written_group ht (hentries.getD_rawFree (by decide))) hgroup
  have hnames := hgroup'.advances.namesTokens (hfilter'.advances.namesTokens hs)
  have hhaving' : WrittenAll t.dialect.backslashEscapes s₂ having s₃ :=
    writtenAll_whenTruthy rfl (written_having ht hnames (hentries.getD_rawFree (by decide)))
      hhaving
  have horder' : WrittenAll t.dialect.backslashEscapes s₃ orderBy s₄ := by
    refine writtenAll_whenTruthy rfl (written_order ht ?_) horder
    rcases hentries.getD orderKey with hfree | ⟨_, hrandom⟩
    · exact .inl hfree
    · exact .inr hrandom
  have hclauses := ((hfilter'.append hgroup').append hhaving').append horder'
  have hlimit' : ∃ rows, WrittenAll t.dialect.backslashEscapes s₄ rows u ∧
      sql = Sql.join " " (filter ++ groupBy ++ having ++ orderBy ++ rows) := by
    split at hlimit
    · simp only [Compile.yields_bind, Compile.yields_pure] at hlimit
      obtain ⟨_, _, ⟨rfl, rfl⟩, rfl, rfl⟩ := hlimit
      exact ⟨[], .nil, rfl⟩
    · simp only [Compile.yields_bind, Compile.yields_pure] at hlimit
      obtain ⟨row, _, hrow, _, _, ⟨rfl, rfl⟩, rfl, rfl⟩ := hlimit
      exact ⟨[row], (written_limit hrow).single, rfl⟩
  obtain ⟨rows, hrows, rfl⟩ := hlimit'
  exact (hclauses.append hrows).join rfl

/-- What may follow a statement: nothing, conditions without raw values, a random order. -/
def TrustedValue (t : Target) : Value → Prop
  | .dict entries => Trusted t entries
  | v => v.rawFree = true

theorem TrustedValue.of_rawFree {v : Value} (h : v.rawFree = true) : TrustedValue t v := by
  cases v with
  | dict entries => exact fun entry hentry => .inl (Value.rawFree_dict.mp h entry hentry)
  | _ => exact h

theorem written_compile (ht : t.PlainPrefix t.dialect.backslashEscapes) {v : Value}
    (hs : s.NamesTokens) (hv : TrustedValue t v) (h : (compile t v).Yields s sql u) :
    Written t.dialect.backslashEscapes s sql u := by
  cases v with
  | null =>
      simp only [compile, Compile.yields_pure] at h
      obtain ⟨rfl, rfl⟩ := h
      exact .of_aligned .nil rfl
  | dict entries => exact written_compile_dict ht hs hv h
  | raw fragment parameters => cases hv
  | _ => simp [compile] at h

end Tail

end QueryLoom
