import QueryLoom.Proofs.Grammar.Rearrangements
import QueryLoom.Proofs.Meaning.Atoms

/-!
The grammar of each dialect, in which a call is the call of one function and an order has items.
Every statement derives from it unless its order is a list of nothing but empty dictionaries; such
an order leaves its keyword without a body, and what ends with that is no sentence.
-/

namespace QueryLoom

open Grammar Statement

/-- Whether a text is the call of one function: a name, and parentheses that are closed by the last
character. -/
def Grammar.isCall (text : String) : Bool :=
  let name := text.toList.takeWhile (· != '(')
  !name.isEmpty && name.all Key.isNameChar && closesAtEnd 0 (text.toList.dropWhile (· != '('))

/-- The grammar of a dialect. -/
def Dialect.rules (d : Dialect) : Rules := ⟨fun text => isCall text = true, d, False⟩

namespace Grammar

variable {d : Dialect} {P : Sql → Prop} {sql : Sql} {rows : List Sql}

/-! Ends of sentences. -/

/-- Whether a text ends, in something that is not a blank. -/
def endsInk (cs : List Char) : Prop := ∃ front c, cs = front ++ [c] ∧ c ≠ ' '

theorem endsInk_append (first : List Char) {rest : List Char} (h : endsInk rest) :
    endsInk (first ++ rest) := by
  obtain ⟨front, c, rfl, hc⟩ := h
  exact ⟨first ++ front, c, (List.append_assoc _ _ _).symm, hc⟩

theorem endsInk_of_forall {cs : List Char} (hne : cs ≠ []) (h : ∀ c ∈ cs, c ≠ ' ') : endsInk cs :=
  ⟨cs.dropLast, cs.getLast hne, (List.dropLast_append_getLast hne).symm, h _ (List.getLast_mem hne)⟩

/-- Whether the text of a row ends in something that is not a blank. -/
def Inked (sql : Sql) : Prop := endsInk (Sql.text sql).toList

theorem Inked.append {first rest : Sql} (h : Inked rest) : Inked (first ++ rest) := by
  rw [Inked, Sql.text_append]
  exact endsInk_append _ h

theorem Inked.cons {p : Piece} (h : Inked sql) : Inked (p :: sql) := by
  rw [Inked, Sql.text_cons]
  exact endsInk_append _ h

theorem inked_piece {p : Piece} (h : endsInk p.toText.toList) : Inked [p] := by
  simpa [Inked, Sql.text, String.join_cons] using h

theorem inked_name (name : String) : Inked [.name name] := by
  refine inked_piece ⟨'"' :: doubled '"' name.toList, '"', ?_, by decide⟩
  simp [Piece.toText, quotedIdentifier]

theorem inked_parenthesis : Inked [.text ")"] := inked_piece ⟨[], ')', rfl, by decide⟩

theorem Inked.join {between : String} (hrows : ∀ row ∈ rows, Inked row) (hne : rows ≠ []) :
    Inked (Sql.join between rows) := by
  induction rows with
  | nil => exact absurd rfl hne
  | cons first rest ih =>
      obtain ⟨hfirst, hrest⟩ := List.forall_mem_cons.mp hrows
      cases rest with
      | nil => exact hfirst
      | cons second rest => exact (ih hrest (by simp)).cons.append

theorem Column.inked (h : Column sql) : Inked sql := by
  cases h with
  | bare name => exact inked_name name
  | qualified table name => exact (inked_name name).cons.cons

theorem Table.inked (h : Table sql) : Inked sql := by
  cases h with
  | plain name => exact inked_name name
  | labelled name label => exact (inked_name label).cons.cons

theorem Placeholder.inked (h : Placeholder sql) : Inked sql := by
  cases h with
  | mk h =>
      rename_i name
      refine inked_piece ?_
      rw [Piece.toText, placeholderToken, String.toList_append]
      refine endsInk_append _ (endsInk_of_forall ?_ ?_)
      · rintro hnil
        rw [hnil] at h
        cases h
      · rintro c hc rfl
        rcases hname : name.toList with _ | ⟨first, rest⟩
        · simp [hname] at hc
        · rw [hname, isToken, Bool.and_eq_true, List.all_eq_true] at h
          rw [hname, List.mem_cons] at hc
          rcases hc with rfl | hc
          · exact absurd h.1 (by decide)
          · exact absurd (h.2 _ hc) (by decide)

theorem Predicate.inked (h : Predicate d.rules sql) : Inked sql := by
  cases h with
  | null negated hleft =>
      refine Inked.append (inked_piece ?_)
      cases negated
      · exact ⟨" IS NUL".toList, 'L', rfl, by decide⟩
      · exact ⟨" IS NOT NUL".toList, 'L', rfl, by decide⟩
  | tested hleft hoperator hv => exact hv.inked.cons.append
  | members negated hleft hrows hne => exact Inked.append inked_parenthesis
  | range negated hleft hlow hhigh => exact (Inked.append inked_parenthesis).cons
  | columns operator hleft hright => exact hright.inked.cons.append
  | group connective hrows hne => exact (Inked.append inked_parenthesis).cons

theorem Conjunction.inked (h : Conjunction d.rules sql) : Inked sql := by
  cases h with
  | mk hrows hne => exact .join (fun row hrow => (hrows row hrow).inked) hne

theorem Group.inked (h : Group sql) : Inked sql := by
  cases h with
  | mk hrows hne => exact .join (fun row hrow => (hrows row hrow).inked) hne

theorem OrderItem.inked (h : OrderItem d.rules sql) : Inked sql := by
  cases h with
  | column h => exact h.inked
  | directed h hdirection =>
      refine Inked.append (inked_piece ?_)
      rcases hdirection with rfl | rfl
      · exact ⟨" AS".toList, 'C', rfl, by decide⟩
      · exact ⟨" DES".toList, 'C', rfl, by decide⟩
  | field h hrows hne => exact (Inked.append inked_parenthesis)
  | ranked h hrows hne =>
      exact Inked.append (inked_piece ⟨" ELSE 0 EN".toList, 'D', rfl, by decide⟩)
  | random =>
      refine inked_piece ?_
      cases d
      · exact ⟨"RANDOM(".toList, ')', rfl, by decide⟩
      · exact ⟨"RANDOM(".toList, ')', rfl, by decide⟩
      · exact ⟨"RAND(".toList, ')', rfl, by decide⟩

/-- An order has an item, and so an end. -/
theorem Order.inked (h : Order d.rules sql) : Inked sql := by
  cases h with
  | mk hrows hne => exact .join (fun row hrow => (hrows row hrow).inked) hne

theorem Limit.inked (h : Limit sql) : Inked sql := by
  have hdigits : ∀ n : Nat, endsInk (toString n).toList := by
    intro n
    rw [Nat.toString_eq_ofList_toDigits, String.toList_ofList]
    refine endsInk_of_forall Nat.toDigits_ne_nil fun c hc hblank => ?_
    have hdigit := isFigure_toDigits c hc
    rw [hblank] at hdigit
    cases hdigit
  cases h with
  | size size =>
      refine inked_piece ?_
      rw [Piece.toText, String.toList_append]
      exact endsInk_append _ (hdigits size)
  | offset size offset =>
      refine inked_piece ?_
      rw [Piece.toText, String.toList_append]
      exact endsInk_append _ (hdigits offset)

theorem Keyworded.inked {keyword : String} (h : Keyworded keyword P sql)
    (hP : ∀ {sql}, P sql → Inked sql) : Inked sql := by
  cases h with
  | mk h => exact (hP h).cons

theorem Optional.inked (h : Optional P rows) (hP : ∀ {sql}, P sql → Inked sql) :
    ∀ row ∈ rows, Inked row := by
  cases h with
  | absent => simp
  | present h => exact List.forall_mem_singleton.mpr (hP h)

theorem Clauses.inked (h : Clauses d.rules rows) : ∀ row ∈ rows, Inked row := by
  obtain ⟨⟨hfilter, hgroup, hhaving, horder⟩, hlimit⟩ := h
  simp only [List.forall_mem_append]
  exact ⟨⟨⟨⟨hfilter.inked (·.inked Conjunction.inked), hgroup.inked (·.inked Group.inked)⟩,
    hhaving.inked (·.inked Conjunction.inked)⟩, horder.inked (·.inked Order.inked)⟩,
    hlimit.inked Limit.inked⟩

theorem Join.inked (h : Join sql) : Inked sql := by
  obtain ⟨direction, htable, hrelation⟩ := h
  cases hrelation with
  | names hrows hne => exact (Inked.append inked_parenthesis).cons.append
  | equalities hrows hne =>
      refine Inked.append (Inked.cons (Inked.cons (Inked.join (fun row hrow => ?_) hne)))
      obtain ⟨hleft, hright⟩ := hrows row hrow
      exact hright.inked.cons.append

/-- No query ends with a blank. -/
theorem Query.inked (h : Query d.rules P sql) : Inked sql := by
  have hfrom : ∀ {sql}, From P sql → Inked sql := by
    intro sql h
    cases h with
    | table hhead htable => exact htable.inked.cons.append
    | joined hhead htable hrows hne =>
        exact Inked.append (Inked.join (fun row hrow => (hrows row hrow).inked) hne).cons
  cases h with
  | plain h => exact hfrom h
  | clauses h hrows hne => exact (Inked.join hrows.inked hne).cons.append

end Grammar

namespace Verb

variable {t : Target}

/-- A call without raw values, in the conditions of which functions are called one at a time,
compiles to a sentence of the grammar unless its order is a list of nothing but empty dictionaries.
The entries of its where-specification may stand in any order that leaves the conditions in theirs:
the same is compiled, with the same parameters. -/
theorem compiles_to_sentences {verb : Verb}
    (hverb : verb ∈ [Verb.select, .get, .has, .aggregate, .update, .delete]) {args : List Value}
    {next last : Nat} {c : Compiled} (hargs : ∀ v ∈ args, v.rawFree = true)
    (hcalls : ∀ call ∈ Tail.calls (verb.wheres args), isCall call = true)
    (horder : Tail.ordersNothing (verb.wheres args) = false)
    (h : run (verb.compile t args) next = (.ok c, last)) :
    Derived (Grammar.Statement t.dialect.rules verb) c.text ∧
      ∀ {i : Nat} {entries others : Dict}, verb.wheresPosition? = some i →
        args[i]? = some (.dict entries) → Tail.Rearranged entries others →
        run (verb.compile t (args.set i (.dict others))) next = (.ok c, last) := by
  have hraw : verb ≠ .raw ∧ verb ≠ .rand := by
    constructor
    · rintro rfl
      exact absurd hverb (by decide)
    · rintro rfl
      exact absurd hverb (by decide)
  constructor
  · obtain ⟨u, hyields, _⟩ := yields_of_run h
    have hbuilds : Compile.Builds (verb.compile t args) (Outcome t.dialect.rules verb) :=
      builds_compile rfl hraw.1 hargs hcalls fun hnothing => by
        rw [horder] at hnothing
        cases hnothing
    exact (hbuilds (namesTokens_start next) hyields).1.derived
  · intro i entries others hposition hi hrearranged
    rw [compile_rearranged hrearranged hraw.2 hposition hi]
    exact h

/-- A selection of which the limit is given first. -/
theorem compiles_to_sentences_of_selection :
    ∃ c last,
      run (Verb.select.compile ⟨.sqlite, ""⟩
        [.str "users", .str "*",
          .dict [(.str "LIMIT", .int 10), (.str "HAVING", .dict [(.str "COUNT(*)[>]", .int 2)]),
            (.str "state", .str "on"), (.str "GROUP", .str "city"),
            (.str "ORDER", .list [.dict [], .str "city"])]]) 0 = (.ok c, last) ∧
      c.text = "SELECT * FROM \"users\" WHERE \"state\" = :param_0 GROUP BY \"city\" " ++
        "HAVING COUNT(*) > :param_1 ORDER BY \"city\" LIMIT 10" ∧
      Derived (Grammar.Statement Dialect.sqlite.rules .select) c.text ∧
      run (Verb.select.compile ⟨.sqlite, ""⟩
        [.str "users", .str "*",
          .dict [(.str "HAVING", .dict [(.str "COUNT(*)[>]", .int 2)]), (.str "state", .str "on"),
            (.str "GROUP", .str "city"), (.str "ORDER", .list [.dict [], .str "city"]),
            (.str "LIMIT", .int 10)]]) 0 = (.ok c, last) := by
  generalize hentries : [(Value.str "HAVING", Value.dict [(.str "COUNT(*)[>]", .int 2)]),
    (.str "state", .str "on"), (.str "GROUP", .str "city"),
    (.str "ORDER", .list [.dict [], .str "city"])] = entries
  generalize hothers : [(Value.str "HAVING", Value.dict [(.str "COUNT(*)[>]", .int 2)]),
    (.str "state", .str "on"), (.str "GROUP", .str "city"),
    (.str "ORDER", .list [.dict [], .str "city"]), (.str "LIMIT", .int 10)] = others
  have hperm : Tail.Rearranged ((.str "LIMIT", .int 10) :: entries) others := by
    have hlast : others = entries ++ [(.str "LIMIT", .int 10)] := by
      subst hentries hothers
      rfl
    refine ⟨?_, ?_, ?_⟩
    · rw [hlast]
      exact (List.perm_append_singleton _ _).symm
    · subst hentries
      unfold Assoc.Distinct
      decide
    · subst hentries hothers
      rfl
  have htext : (run (Verb.select.compile ⟨.sqlite, ""⟩
      [.str "users", .str "*", .dict ((.str "LIMIT", .int 10) :: entries)]) 0).1.toOption.map
        Compiled.text =
      some ("SELECT * FROM \"users\" WHERE \"state\" = :param_0 GROUP BY \"city\" " ++
        "HAVING COUNT(*) > :param_1 ORDER BY \"city\" LIMIT 10") := by
    subst hentries
    decide +kernel
  have hfree : ∀ v ∈ [.str "users", .str "*", Value.dict ((.str "LIMIT", .int 10) :: entries)],
      v.rawFree = true := by
    subst hentries
    decide
  have hcalls : ∀ call ∈ Tail.calls (Verb.select.wheres
      [.str "users", .str "*", .dict ((.str "LIMIT", .int 10) :: entries)]),
      isCall call = true := by
    subst hentries
    decide +kernel
  have horder : Tail.ordersNothing (Verb.select.wheres
      [.str "users", .str "*", .dict ((.str "LIMIT", .int 10) :: entries)]) = false := by
    subst hentries
    decide +kernel
  rcases hrun : run (Verb.select.compile ⟨.sqlite, ""⟩
    [.str "users", .str "*", .dict ((.str "LIMIT", .int 10) :: entries)]) 0 with ⟨_ | c, last⟩
  · simp [hrun, Except.toOption] at htext
  · simp only [hrun, Except.toOption, Option.map_some, Option.some.injEq] at htext
    obtain ⟨hderived, hsame⟩ := compiles_to_sentences (by decide) hfree hcalls horder hrun
    exact ⟨c, last, rfl, htext, hderived, hsame rfl rfl hperm⟩

/-- A list of empty dictionaries is an order without an item. -/
theorem empty_order_is_no_sentence :
    ∃ c last,
      run (Verb.select.compile ⟨.sqlite, ""⟩
        [.str "t", .str "*", .dict [(.str "ORDER", .list [.dict []])]]) 0 = (.ok c, last) ∧
      c.text = "SELECT * FROM \"t\" ORDER BY " ∧
      ¬ Derived (Grammar.Statement Dialect.sqlite.rules .select) c.text := by
  have htext : (run (Verb.select.compile ⟨.sqlite, ""⟩
      [.str "t", .str "*", .dict [(.str "ORDER", .list [.dict []])]]) 0).1.toOption.map
        Compiled.text = some "SELECT * FROM \"t\" ORDER BY " := by
    decide +kernel
  rcases hrun : run (Verb.select.compile ⟨.sqlite, ""⟩
    [.str "t", .str "*", .dict [(.str "ORDER", .list [.dict []])]]) 0 with ⟨_ | c, last⟩
  · simp [hrun, Except.toOption] at htext
  · simp only [hrun, Except.toOption, Option.map_some, Option.some.injEq] at htext
    refine ⟨c, last, rfl, htext, ?_⟩
    rintro ⟨sql, hsentence, hsql⟩
    have hink : Inked sql := by
      cases hsentence with
      | selection hverb h => exact h.inked
      | update hverb h => exact absurd hverb (by decide)
    obtain ⟨front, last, hlast, hblank⟩ := hink
    rw [hsql, htext] at hlast
    have hend := congrArg List.getLast? hlast
    rw [List.getLast?_concat] at hend
    exact hblank (Option.some.inj hend).symm

end Verb

end QueryLoom
