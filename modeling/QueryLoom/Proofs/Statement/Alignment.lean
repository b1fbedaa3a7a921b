import QueryLoom.Proofs.Statement.Call
import QueryLoom.Proofs.Statement.Writes

/-!
Compiler and binder agree. A statement without raw values, as any verb compiles it, holds exactly its
parameters as placeholders, each one once and in the order in which their values were bound; so the
binder, which reads nothing but the text, hands over exactly those values.
-/

namespace QueryLoom.Statement

open Lexer

variable {t : Target} {s u : Parameters} {c : Compiled}

/-! All verbs. -/

/-- No default of a verb is a raw value. -/
theorem rawFree_default (verb : Verb) :
    ∀ p ∈ verb.parameters, ∀ v, p.default = some v → v.rawFree = true := by
  cases verb <;>
    simp [Verb.parameters, Signature.required, Signature.optional, Value.rawFree]

theorem rawFree_bind {verb : Verb} {args values : List Value}
    (hargs : ∀ v ∈ args, v.rawFree = true)
    (h : Signature.bind ⟨verb.parameters, []⟩ args [] = .ok values) :
    ∀ v ∈ values, v.rawFree = true := by
  obtain ⟨defaults, hdefaults, rfl⟩ := Signature.bind_eq_append h
  intro v hv
  rcases List.mem_append.mp hv with hv | hv
  · exact hargs v hv
  · obtain ⟨p, hp, hdefault⟩ := Signature.default_of_mem_fillNamed hdefaults hv
    exact rawFree_default verb p (List.mem_of_mem_drop hp) v hdefault

/-- What a call of any verb compiles to. -/
theorem completed_compile (ht : t.PlainPrefix t.dialect.backslashEscapes) (hs : s.NamesTokens)
    {verb : Verb} (hverb : verb ≠ .raw) {args : List Value}
    (hargs : ∀ v ∈ args, v.rawFree = true) (h : (verb.compile t args).Yields s c u) :
    Completed t.dialect.backslashEscapes s c u := by
  simp only [Verb.compile, Compile.yields_bind, Compile.yields_lift] at h
  obtain ⟨values, _, ⟨hvalues, rfl⟩, h⟩ := h
  have hfree := rawFree_bind hargs hvalues
  unfold Verb.compileWith at h
  split at h
  · exact (completed_select ht hs (hfree _ (by simp)) (.of_rawFree (hfree _ (by simp))) h).1
  · exact completed_get ht hs (hfree _ (by simp)) (hfree _ (by simp)) h
  · exact completed_rand ht hs (hfree _ (by simp)) (hfree _ (by simp)) h
  · exact completed_has ht hs (hfree _ (by simp)) h
  · exact completed_aggregate ht hs (hfree _ (by simp)) (hfree _ (by simp)) h
  · exact completed_insert ht hs (hfree _ (by simp)) h
  · exact completed_update ht hs (hfree _ (by simp)) (hfree _ (by simp)) h
  · exact completed_delete ht hs (hfree _ (by simp)) h
  · exact completed_replace ht hs (hfree _ (by simp)) h
  · exact absurd rfl hverb
  · simp at h

/-! Binding. -/

theorem substituted_eq (params : Dict) (ls : List Lexeme) :
    substituted params ls = (tokenNames ls).filterMap fun name =>
      (Dict.get? params name).map fun v => (name, v) := by
  induction ls with
  | nil => rfl
  | cons l rest ih =>
      cases l with
      | token name =>
          simp only [substituted, tokenNames, List.filterMap_cons] at ih ⊢
          cases Dict.get? params (String.ofList name) <;> simp [ih]
      | _ => exact ih

/-- Bound values as a dictionary. -/
def namedValues (params : List (String × Value)) : Dict :=
  params.map fun (name, v) => (.str name, v)

theorem get?_namedValues {params : List (String × Value)} (h : (params.map Prod.fst).Nodup)
    {name : String} {v : Value} (hmem : (name, v) ∈ params) :
    Dict.get? (namedValues params) name = some v := by
  induction params with
  | nil => cases hmem
  | cons entry rest ih =>
      obtain ⟨first, w⟩ := entry
      rw [List.map_cons, List.nodup_cons] at h
      simp only [namedValues, List.map_cons, Dict.get?, Assoc.get?, Value.str_beq_str] at ih ⊢
      rcases List.mem_cons.mp hmem with heq | hrest
      · cases heq
        simp
      · have hne : first ≠ name := by
          rintro rfl
          exact h.1 (List.mem_map.mpr ⟨(first, v), hrest, rfl⟩)
        simp only [beq_iff_eq, hne, ↓reduceIte]
        exact ih h.2 hrest

theorem insert_namedValues {params : List (String × Value)} {name : String} (v : Value)
    (h : name ∉ params.map Prod.fst) :
    Assoc.insert (Value.str name) v (namedValues params) = namedValues (params ++ [(name, v)]) := by
  induction params with
  | nil => rfl
  | cons entry rest ih =>
      obtain ⟨first, w⟩ := entry
      rw [List.map_cons, List.mem_cons, not_or] at h
      have hne : ¬first = name := Ne.symm h.1
      simp only [namedValues, List.map_cons, Assoc.insert, Value.str_beq_str, beq_iff_eq, hne,
        ↓reduceIte, List.cons_append] at ih ⊢
      rw [ih h.2]

theorem ofList_namedValues {params : List (String × Value)} (h : (params.map Prod.fst).Nodup) :
    Assoc.ofList (namedValues params) = namedValues params := by
  -- what is written so far, and what is still to be written under other names
  have hmerge : ∀ rest done : List (String × Value), ((done ++ rest).map Prod.fst).Nodup →
      Assoc.merge (namedValues done) (namedValues rest) = namedValues (done ++ rest) := by
    intro rest
    induction rest with
    | nil =>
        intro done _
        rw [List.append_nil]
        rfl
    | cons entry rest ih =>
        intro done hnodup
        obtain ⟨name, v⟩ := entry
        have hnew : name ∉ done.map Prod.fst := by
          rw [List.map_append, List.map_cons] at hnodup
          intro hmem
          have hdisjoint := (List.nodup_append.mp hnodup).2.2
          exact hdisjoint name hmem name (by simp) rfl
        have hnext := ih (done ++ [(name, v)]) (by simpa using hnodup)
        rw [List.append_assoc, List.singleton_append] at hnext
        rw [← hnext, ← insert_namedValues v hnew]
        rfl
  exact hmerge params [] h

/-- The placeholders of a text that are exactly the bound names are bound to their values. -/
theorem bind_eq_of_names {backslash : Bool} {sql : Sql} {params : List (String × Value)}
    (haligned : Aligned backslash sql) (hnames : sql.params = params.map Prod.fst)
    (hnodup : (params.map Prod.fst).Nodup) (style : ParamStyle) :
    (Binding.bind sql.text (namedValues params) style backslash).2 =
      if style.byName then .dict (namedValues params) else .list (params.map Prod.snd) := by
  have hspans : Placeholder.spans backslash (Sql.text sql).toList =
      (lex backslash (Sql.text sql).toList).map Lexeme.span := by
    rw [haligned.spans, haligned.lex]
  have hfound : ∀ found : List (String × Value), (∀ entry ∈ found, entry ∈ params) →
      (found.map Prod.fst).filterMap (fun name =>
        (Dict.get? (namedValues params) name).map fun v => (name, v)) = found := by
    intro found
    induction found with
    | nil => simp
    | cons entry rest ih =>
        intro hmem
        rw [List.forall_mem_cons] at hmem
        simp [get?_namedValues hnodup hmem.1, ih hmem.2]
  have hvalues : Binding.values (Binding.parts backslash (namedValues params) sql.text) = params := by
    rw [parts_eq _ hspans, values_map_part, substituted_eq, haligned.lex, haligned.tokenNames,
      hnames]
    exact hfound params fun _ h => h
  have hentries : params.map (fun (name, v) => (Value.str name, v)) = namedValues params := rfl
  simp only [Binding.bind, hvalues, hentries, ofList_namedValues hnodup]

/-- For every verb but the one for whole raw statements, every dialect and every table prefix of name
characters: a statement that compiles from values without raw ones holds its parameters as
placeholders, each once and in their order. So binding hands over the whole dictionary to a style that
names its markers, and the values in this order to any other style. -/
theorem placeholders_are_parameters {t : Target} {verb : Verb} {args : List Value} {next : Nat}
    {c : Compiled} {last : Nat} (hname : IsNameText t.tablePrefix) (hverb : verb ≠ .raw)
    (hargs : ∀ v ∈ args, v.rawFree = true)
    (h : run (verb.compile t args) next = (.ok c, last)) :
    Binding.names t.dialect.backslashEscapes c.text = c.params.map Prod.fst ∧
      (c.params.map Prod.fst).Nodup ∧
      ∀ style : ParamStyle,
        (Binding.bind c.text c.paramsDict style t.dialect.backslashEscapes).2 =
          if style = .named ∨ style = .pyformat then .dict c.paramsDict
          else .list (c.params.map Prod.snd) := by
  obtain ⟨u, hyields, _⟩ := yields_of_run h
  obtain ⟨⟨hadvances, haligned⟩, hparams⟩ :=
    completed_compile (fun _ => hname) (namesTokens_start next) hverb hargs hyields
  have hbinds := hadvances.binds (Parameters.numbered_start next)
  have hnames : c.sql.params = c.params.map Prod.fst := by
    rw [hparams]
    exact hbinds.bound.symm
  have hnodup : (c.params.map Prod.fst).Nodup := by
    rw [← hnames]
    exact hbinds.nodup
  refine ⟨?_, hnodup, ?_⟩
  · rw [← hnames]
    exact haligned.names
  · intro style
    exact (bind_eq_of_names haligned hnames hnodup style).trans (if_congr style.byName_iff rfl rfl)

/-- A selection whose order holds literals with quotes, a backslash and the text of a placeholder. -/
theorem placeholders_are_parameters_of_selection :
    ∃ c last,
      run (Verb.select.compile ⟨.mysql, "app_"⟩
        [.str "users", .str "*",
          .dict [(.str "name[~]", .list [.str "a", .str "b"]), (.str "age[>]", .int 3),
            (.str "ORDER", .dict [(.str "state", .list [.str "it's \\ :param_7", .str "\n"])])]]) 7 =
        (.ok c, last) ∧
      Binding.names true c.text = ["param_7", "param_8", "param_9"] ∧
      (Binding.bind c.text c.paramsDict .qmark true).2 = .list (c.params.map Prod.snd) ∧
      (Binding.bind c.text c.paramsDict .named true).2 = .dict c.paramsDict := by
  generalize hargs : [Value.str "users", .str "*",
    .dict [(.str "name[~]", .list [.str "a", .str "b"]), (.str "age[>]", .int 3),
      (.str "ORDER", .dict [(.str "state", .list [.str "it's \\ :param_7", .str "\n"])])]] = args
  have hparams : (run (Verb.select.compile ⟨.mysql, "app_"⟩ args) 7).1.toOption.map
      (fun c => c.params.map Prod.fst) = some ["param_7", "param_8", "param_9"] := by
    subst hargs
    decide +kernel
  have hfree : ∀ v ∈ args, v.rawFree = true := by
    subst hargs
    decide
  rcases hrun : run (Verb.select.compile ⟨.mysql, "app_"⟩ args) 7 with ⟨_ | c, last⟩
  · simp [hrun, Except.toOption] at hparams
  · simp only [hrun, Except.toOption, Option.map_some, Option.some.injEq] at hparams
    obtain ⟨hnames, _, hbind⟩ :=
      placeholders_are_parameters (t := ⟨.mysql, "app_"⟩) (by decide) (by decide) hfree hrun
    refine ⟨c, last, rfl, ?_, hbind .qmark, hbind .named⟩
    rw [← hparams]
    exact hnames

end QueryLoom.Statement
