import QueryLoom.Database.Basic
import QueryLoom.Proofs.Bindings.Doubles
import QueryLoom.Proofs.Lexing.Inlined

/-!
Dry runs. A statement that is shown with its values written in has the tokens of the statement that
is run, its placeholders apart, which give way to the literals of their values. Whatever characters
the values hold, none of them ends a literal, begins a token or is taken for a placeholder.
-/

namespace QueryLoom

open Grammar Statement

variable {t : Target} {verb : Verb} {args : List Value} {next last : Nat} {c : Compiled}

/-- A whole raw statement is asked for by a raw value. -/
theorem Verb.ne_raw_of_rawFree {s u : Parameters} (hargs : ∀ v ∈ args, v.rawFree = true)
    (h : (verb.compile t args).Yields s c u) : verb ≠ .raw := by
  rintro rfl
  simp only [compile, Compile.yields_bind, Compile.yields_lift] at h
  obtain ⟨values, _, ⟨hvalues, rfl⟩, h⟩ := h
  have hfree := rawFree_bind hargs hvalues
  rcases values with _ | ⟨v, _ | ⟨w, more⟩⟩
  · simp [compileWith] at h
  · cases v with
    | raw sql parameters => cases hfree _ List.mem_cons_self
    | _ => simp [compileWith, Statement.raw] at h
  · simp [compileWith] at h

/-- The row of a statement without raw values: it is aligned, its placeholders are the parameters,
each once, and they stand apart from everything around them. -/
structure Compiled.Settled (t : Target) (c : Compiled) : Prop where
  aligned : Aligned t.dialect.backslashEscapes c.sql
  params : c.sql.params = c.params.map Prod.fst
  nodup : (c.params.map Prod.fst).Nodup
  spaced : Sql.spaced true c.sql = true

theorem Verb.settled_compile (hname : IsNameText t.tablePrefix)
    (hargs : ∀ v ∈ args, v.rawFree = true)
    (h : Statement.run (verb.compile t args) next = (.ok c, last)) : c.Settled t := by
  obtain ⟨u, hyields, _⟩ := yields_of_run h
  have hverb := Verb.ne_raw_of_rawFree hargs hyields
  have hstart := namesTokens_start next
  obtain ⟨⟨hadvances, haligned⟩, hparams⟩ :=
    completed_compile (fun _ => hname) hstart hverb hargs hyields
  have hbinds := hadvances.binds (Parameters.numbered_start next)
  have hnames : c.sql.params = c.params.map Prod.fst := by
    rw [hparams]
    exact hbinds.bound.symm
  have hnodup := hbinds.nodup
  rw [hnames] at hnodup
  -- every text may be called a function here, and an order may be empty
  have hbuilds : Compile.Builds (verb.compile t args)
      (Outcome ⟨fun _ => True, t.dialect, True⟩ verb) :=
    Verb.builds_compile rfl hverb hargs (fun _ _ => trivial) fun _ => trivial
  have hapart := (hbuilds hstart hyields).1.apart [] rfl rfl
  rw [List.append_nil] at hapart
  exact ⟨haligned, hnames, hnodup, hapart⟩

/-- The values that are found for the placeholders of such a row are those that were bound. -/
theorem Compiled.Settled.found (h : c.Settled t) :
    c.sql.params.filterMap (Dict.get? c.paramsDict) = c.params.map Prod.snd := by
  have hvalue : ∀ b ∈ c.params, Dict.get? c.paramsDict b.1 = some b.2 := fun b hb =>
    get?_namedValues h.nodup hb
  rw [h.params, List.filterMap_map, ← List.filterMap_eq_map]
  exact List.filterMap_congr hvalue

namespace Database

variable {σ τ : Type}

/-- A dry run shows the row with its values written in, if they all have texts. -/
theorem generate_of_settled (db : Database σ τ) (h : c.Settled db.target) :
    db.generate c.text c.paramsDict =
      if (c.params.map Prod.snd).all Value.hasText then
        .ok (c.sql.filled db.dialect c.paramsDict).text
      else .error .badValue := by
  rw [← h.found]
  exact h.aligned.inline

/-- A number with too many digits is not shown. -/
theorem generate_of_long_number (db : Database σ τ) (h : c.Settled db.target) {b : String × Value}
    (hb : b ∈ c.params) {i : Int} (hvalue : b.2 = .int i)
    (hlong : Nat.pow 10 Reading.digitLimit ≤ i.natAbs) :
    db.generate c.text c.paramsDict = .error .badValue := by
  rw [generate_of_settled db h]
  refine if_neg fun hall => ?_
  have htext := List.all_eq_true.mp hall _ (List.mem_map_of_mem hb)
  rw [hvalue] at htext
  have hnone : Value.isWritten i = false := Value.not_isWritten_of_le (Nat.le_refl _) hlong
  exact absurd htext (by simp [Value.hasText, hnone])

/-- The tokens of a row with its values written in, the values being found for its placeholders. -/
theorem keeps_tokens_of_settled (h : c.Settled t)
    (hfloats : ∀ b ∈ c.params, ∀ x, b.2 = .float x → x.IsDouble) :
    let tokens := fun sql : String => SqlToken.read t.dialect.backslashEscapes sql.toList
    let shown := (c.sql.filled t.dialect c.paramsDict).text
    tokens shown = (tokens c.text).flatMap (SqlToken.filled c.paramsDict) ∧
      (∀ key, .placeholder key ∈ tokens c.text → ∃ v, (String.ofList key, v) ∈ c.params ∧
        SqlToken.filled c.paramsDict (.placeholder key) = v.literalTokens) ∧
      Binding.names t.dialect.backslashEscapes shown = [] := by
  intro tokens shown
  obtain ⟨haligned, hparams, hnodup, hspaced⟩ := h
  have hvalue : ∀ {p : String} {v : Value}, (p, v) ∈ c.params → Dict.get? c.paramsDict p = some v :=
    get?_namedValues hnodup
  have hfilled : Aligned t.dialect.backslashEscapes (c.sql.filled t.dialect c.paramsDict) :=
    haligned.filled
  have htokens : tokens c.text = SqlToken.readFrom t.dialect.backslashEscapes .none
      (c.sql.lexemes t.dialect.backslashEscapes) := by
    rw [← haligned.lex]
    rfl
  refine ⟨?_, ?_, ?_⟩
  · have hfound : ∀ p x, Dict.get? c.paramsDict p = some (.float x) → x.IsDouble := by
      intro p x hget
      obtain ⟨k, hmem, _⟩ := Assoc.mem_of_get? hget
      obtain ⟨b, hb, heq⟩ := List.mem_map.mp hmem
      exact hfloats b hb x (Prod.mk.inj heq).2
    have hread : tokens shown = SqlToken.readFrom t.dialect.backslashEscapes .none
        ((c.sql.filled t.dialect c.paramsDict).lexemes t.dialect.backslashEscapes) := by
      rw [← hfilled.lex]
      rfl
    rw [hread, htokens]
    exact SqlToken.keeps_of_spaced haligned hfound hspaced fun _ => rfl
  · intro key hkey
    have hmem : String.ofList key ∈ SqlToken.placeholders (tokens c.text) :=
      List.mem_filterMap.mpr ⟨_, hkey, rfl⟩
    rw [htokens, SqlToken.placeholders_readFrom, haligned.tokenNames, hparams] at hmem
    obtain ⟨⟨p, v⟩, hb, hp⟩ := List.mem_map.mp hmem
    obtain rfl : p = String.ofList key := hp
    exact ⟨v, hb, by rw [SqlToken.filled, hvalue hb]⟩
  · change Binding.names _ (c.sql.filled t.dialect c.paramsDict).text = []
    rw [hfilled.names]
    refine Sql.params_filled fun p hp => ?_
    rw [hparams] at hp
    obtain ⟨⟨p, v⟩, hb, rfl⟩ := List.mem_map.mp hp
    exact ⟨v, hvalue hb⟩

/-- For every dialect, every table prefix of name characters and every call without raw values that
compiles, its floating point numbers being of 64 bits: if every value that it binds has a text, then a
dry run shows the statement with its values, the tokens of what it shows are those of the compiled
text, with the literal of its value in the place of each placeholder, and the scanner finds no
placeholder in it any more. If a whole number among the values has too many digits to be written, then
nothing is shown, and the fault is the one for that number. -/
theorem generate_keeps_tokens (db : Database σ τ) (hname : IsNameText db.config.tablePrefix)
    (hargs : ∀ v ∈ args, v.rawFree = true) (hdoubles : ∀ v ∈ args, v.Doubles)
    (h : Statement.run (verb.compile db.target args) next = (.ok c, last)) :
    let tokens := fun sql : String => SqlToken.read db.dialect.backslashEscapes sql.toList
    ((∀ b ∈ c.params, b.2.hasText = true) →
      ∃ shown, db.generate c.text c.paramsDict = .ok shown ∧
        tokens shown = (tokens c.text).flatMap (SqlToken.filled c.paramsDict) ∧
        (∀ key, .placeholder key ∈ tokens c.text → ∃ v, (String.ofList key, v) ∈ c.params ∧
          SqlToken.filled c.paramsDict (.placeholder key) = v.literalTokens) ∧
        Binding.names db.dialect.backslashEscapes shown = []) ∧
    ((∃ b ∈ c.params, ∃ i, b.2 = .int i ∧ Nat.pow 10 Reading.digitLimit ≤ i.natAbs) →
      db.generate c.text c.paramsDict = .error .badValue) := by
  intro tokens
  have hsettled : c.Settled db.target := Verb.settled_compile hname hargs h
  constructor
  · intro htexts
    rw [generate_of_settled db hsettled, if_pos (List.all_eq_true.mpr (List.forall_mem_map.mpr htexts))]
    refine ⟨_, rfl, keeps_tokens_of_settled hsettled fun b hb x hx => ?_⟩
    have hbound := Verb.doubles_params hargs hdoubles h b hb
    rw [hx] at hbound
    exact hbound
  · rintro ⟨b, hb, i, hvalue, hlong⟩
    exact generate_of_long_number db hsettled hb hvalue hlong

/-- A negative number behind a minus, a number with an exponent, a text that holds a quote, a
backslash and the text of a placeholder, and octets. -/
theorem generate_keeps_tokens_of_update :
    let db : Database Unit Unit :=
      ⟨⟨"mysql", "app_", false, 0⟩, .mysql, none, Json.usualNesting⟩
    let shown := "UPDATE \"app_users\" SET \"age\" = \"age\" - -5, \"rate\" = 1e-05, " ++
      "\"name\" = 'it''s \\\\ :param_0', \"note\" = NULL, " ++
      "\"key\" = X'00ff' WHERE \"id\" = '1'"
    ∃ c last,
      Statement.run (Verb.update.compile db.target
        [.str "users",
          .dict [(.str "age[-]", .int (-5)),
            (.str "rate", .float (.finite false 5902958103587057 (-69))),
            (.str "name", .str "it's \\ :param_0"), (.str "note", .null),
            (.str "key", .bytes [0, 255])],
          .dict [(.str "id", .bool true)]]) 0 = (.ok c, last) ∧
      (∀ b ∈ c.params, b.2.hasText = true) ∧
      db.generate c.text c.paramsDict = .ok shown ∧
      SqlToken.read true shown.toList =
        (SqlToken.read true c.text.toList).flatMap (SqlToken.filled c.paramsDict) ∧
      Binding.names true shown = [] := by
  intro db shown
  generalize hargs : [Value.str "users",
    .dict [(.str "age[-]", .int (-5)), (.str "rate", .float (.finite false 5902958103587057 (-69))),
      (.str "name", .str "it's \\ :param_0"), (.str "note", .null), (.str "key", .bytes [0, 255])],
    .dict [(.str "id", .bool true)]] = args
  have hrendered : (Statement.run (Verb.update.compile db.target args) 0).1.toOption.map
      (fun c => (c.params.all (fun b => b.2.hasText), (db.generate c.text c.paramsDict).toOption)) =
      some (true, some shown) := by
    subst hargs
    decide +kernel
  have hfree : ∀ v ∈ args, v.rawFree = true := by
    subst hargs
    decide
  have hdoubles : ∀ v ∈ args, v.Doubles := by
    subst hargs
    simp [Value.Doubles, Value.DoublesEntries, Binary64.IsDouble, Binary64.mantissaBound,
      Binary64.leastExponent, Binary64.greatestExponent]
  rcases hrun : Statement.run (Verb.update.compile db.target args) 0 with ⟨_ | c, last⟩
  · simp [hrun, Except.toOption] at hrendered
  · simp only [hrun, Except.toOption, Option.map_some, Option.some.injEq, Prod.mk.injEq,
      List.all_eq_true] at hrendered
    obtain ⟨htexts, hgenerated⟩ := hrendered
    obtain ⟨text, htext, htokens, _, hnames⟩ :=
      (generate_keeps_tokens db (by decide) hfree hdoubles hrun).1 htexts
    rw [htext] at hgenerated
    obtain rfl := Option.some.inj hgenerated
    exact ⟨c, last, rfl, htexts, htext, htokens, hnames⟩

/-- A selection that compares a column with a number of more digits than are written compiles, but the
statement with the number in it cannot be shown. -/
theorem long_number_is_not_shown :
    let db : Database Unit Unit := ⟨⟨"sqlite", "", false, 0⟩, .sqlite, none, Json.usualNesting⟩
    let long : Int := Nat.pow 10 Reading.digitLimit
    ∃ c last,
      Statement.run (Verb.select.compile db.target
        [.str "t", .str "*", .dict [(.str "a", .int long)]]) 0 = (.ok c, last) ∧
      c.text = "SELECT * FROM \"t\" WHERE \"a\" = :param_0" ∧
      c.params = [("param_0", .int long)] ∧
      db.generate c.text c.paramsDict = .error .badValue := by
  intro db long
  have hparams : ∀ i : Int, (Statement.run (Verb.select.compile db.target
      [.str "t", .str "*", .dict [(.str "a", .int i)]]) 0).1.toOption.map Compiled.params =
      some [("param_0", .int i)] := fun _ => rfl
  generalize hargs : [Value.str "t", .str "*", .dict [(.str "a", .int long)]] = args
  replace hparams := hparams long
  rw [hargs] at hparams
  have htext : (Statement.run (Verb.select.compile db.target args) 0).1.toOption.map Compiled.text =
      some "SELECT * FROM \"t\" WHERE \"a\" = :param_0" := by
    subst hargs
    decide +kernel
  have hfree : ∀ v ∈ args, v.rawFree = true := by
    subst hargs
    simp [Value.rawFree, Value.rawFreeEntries]
  rcases hrun : Statement.run (Verb.select.compile db.target args) 0 with ⟨_ | c, last⟩
  · simp [hrun, Except.toOption] at htext
  · simp only [hrun, Except.toOption, Option.map_some, Option.some.injEq] at hparams htext
    refine ⟨c, last, rfl, htext, hparams, ?_⟩
    refine generate_of_long_number db (Verb.settled_compile (by decide) hfree hrun)
      (b := ("param_0", .int long)) ?_ rfl (Nat.le_of_eq (Int.natAbs_natCast _).symm)
    rw [hparams]
    exact List.mem_singleton_self _

end Database

end QueryLoom
