import QueryLoom.Proofs.Prefixes.Statements
import QueryLoom.Proofs.Statement.Call

/-!
A table prefix is applied to every name of a table and to nothing else: a call compiles with the prefix
to what the call in which it was written compiles to without one. The one place in which the prefix is
not applied is the call of a function in the key of a condition, which is copied as it is.
-/

namespace QueryLoom

open Compile Prefixed Statement

variable {t : Target} {p : List Char} {call : List Char → List Char}

/-! Qualifiers in calls of functions. -/

namespace Prefixed

theorem subset_qualifiers (inside : Bool) (cs : List Char) : cs ⊆ qualifiers p inside cs := by
  induction cs generalizing inside with
  | nil => exact List.nil_subset _
  | cons c rest ih =>
      rw [qualifiers]
      refine List.cons_subset.mpr ⟨List.mem_append_left _ ?_, ?_⟩
      · split_ifs <;> simp
      · exact List.Subset.trans (ih _) (List.subset_append_right _ _)

/-! Arguments. -/

theorem each_nil (fs : List (Value → Value)) : each fs [] = [] := by
  cases fs <;> rfl

theorem length_each (fs : List (Value → Value)) (args : List Value) :
    (each fs args).length = args.length := by
  induction args generalizing fs with
  | nil => rw [each_nil]
  | cons v rest ih =>
      cases fs with
      | nil => rfl
      | cons f fs => rw [each, List.length_cons, List.length_cons, ih]

/-- Functions that leave the defaults of parameters as they are. -/
def KeepsDefaults (fs : List (Value → Value)) (parameters : List Parameter) : Prop :=
  List.Forall₂ (fun f parameter => parameter.default.map f = parameter.default) fs parameters

theorem each_append {fs : List (Value → Value)} {parameters : List Parameter}
    (h : KeepsDefaults fs parameters) {args defaults : List Value}
    (hdefaults : defaults.map some = (parameters.drop args.length).map Parameter.default) :
    each fs (args ++ defaults) = each fs args ++ defaults := by
  induction h generalizing args defaults with
  | nil => rfl
  | @cons f parameter fs parameters hkeeps _ ih =>
      cases args with
      | cons v rest =>
          rw [List.length_cons, List.drop_succ_cons] at hdefaults
          rw [List.cons_append, each, each, List.cons_append, ih hdefaults]
      | nil =>
          cases defaults with
          | nil => rfl
          | cons v rest =>
              rw [List.length_nil, List.drop_zero, List.map_cons, List.map_cons,
                List.cons.injEq] at hdefaults
              obtain ⟨hv, hrest⟩ := hdefaults
              have hsame : each fs ([] ++ rest) = each fs [] ++ rest := ih hrest
              rw [each_nil, List.nil_append] at hsame
              rw [← hv, Option.map_some, Option.some.injEq] at hkeeps
              rw [List.nil_append, each, hkeeps, hsame, each_nil, List.nil_append]

end Prefixed

namespace Verb

theorem keepsDefaults_arguments (verb : Verb) :
    KeepsDefaults (arguments p call verb) verb.parameters := by
  have hstar : (some (.str "*")).map (specification p) = some (.str "*") := by
    change some (Value.str (String.ofList (path p "*".toList))) = some (.str "*")
    rw [path_of_not_mem (by decide), String.ofList_toList]
  unfold KeepsDefaults
  cases verb with
  | select | get | rand => exact .cons rfl (.cons hstar (.cons rfl (.cons rfl .nil)))
  | has => exact .cons rfl (.cons rfl (.cons rfl .nil))
  | aggregate => exact .cons rfl (.cons rfl (.cons rfl (.cons rfl (.cons rfl .nil))))
  | update | replace => exact .cons rfl (.cons rfl (.cons rfl .nil))
  | insert | delete => exact .cons rfl (.cons rfl .nil)
  | raw => exact .cons rfl .nil

/-- A written call is completed by the same defaults. -/
theorem bind_written {verb : Verb} {args values : List Value}
    (h : Signature.bind ⟨verb.parameters, []⟩ args [] = .ok values) :
    Signature.bind ⟨verb.parameters, []⟩ (verb.written p call args) [] =
      .ok (verb.written p call values) := by
  have hlength : (verb.written p call args).length = args.length := length_each _ _
  simp only [Signature.bind, List.any_nil, Bool.false_eq_true, ↓reduceIte, List.append_nil,
    hlength] at h ⊢
  split_ifs at h ⊢
  · cases h
  · simp only [Except.bind_eq_ok, Except.pure_eq_ok] at h ⊢
    obtain ⟨defaults, hdefaults, rfl⟩ := h
    exact ⟨defaults, hdefaults,
      each_append (keepsDefaults_arguments verb) (Signature.map_some_fillNamed hdefaults)⟩

/-- The statement for a verb and the values of its parameters. -/
theorem repeats_compileWith (ht : IsNamePart t.mark) (hcall : ∀ cs, cs ⊆ call cs) {verb : Verb}
    {values : List Value} (hfree : ∀ v ∈ values, v.rawFree = true)
    (hwheres : Tail.Fits (Tail.keptCalls call t.dialect) t (verb.wheres values)) :
    RepeatsAs (Compiled.marked t.mark)
      (verb.compileWith t.plain (verb.written t.mark call values)) (verb.compileWith t values) := by
  have hraw : (verb.wheres values).rawFree = true := rawFree_wheres hfree
  generalize hwritten : verb.compileWith t.plain (verb.written t.mark call values) = written
  unfold compileWith
  split <;> subst hwritten
  · exact repeats_select ht hcall hwheres _ _ (hfree _ (by simp))
  · exact repeats_get ht hcall hwheres _ _ (hfree _ (by simp)) hraw
  · exact repeats_rand ht hcall hwheres _ _ (hfree _ (by simp)) hraw
  · exact repeats_has ht hcall hwheres _ _
  · exact repeats_aggregate ht hcall hwheres _ _ _ (hfree _ (by simp))
  · exact repeats_insert ht _ (hfree _ (by simp))
  · exact repeats_update ht hcall hwheres _ (hfree _ (by simp))
  · exact repeats_delete ht hcall hwheres _
  · exact repeats_replace ht hcall hwheres _ _
  · rename_i statement
    have hstatement := hfree statement (by simp)
    cases statement with
    | raw sql parameters => cases hstatement
    | _ => exact .throw _ _ _
  · exact .throw _ _ _

/-- A call without raw values repeats, with the prefix written into it, what it compiles to with the
prefix, if the calls of functions in its conditions are written as they were. -/
theorem repeats_compile (ht : IsNamePart t.mark) (hcall : ∀ cs, cs ⊆ call cs) {verb : Verb}
    {args : List Value} (hargs : ∀ v ∈ args, v.rawFree = true)
    (hcalls : ∀ c ∈ Tail.calls (verb.wheres args), call c.toList = c.toList) :
    RepeatsAs (Compiled.marked t.mark) (verb.compile t.plain (verb.written t.mark call args))
      (verb.compile t args) := by
  refine RepeatsAs.bind_of_yields (.lift bind_written) fun values hvalues => ?_
  obtain ⟨_, _, hvalues⟩ := hvalues
  obtain ⟨hvalues, _⟩ := (yields_lift _).mp hvalues
  have hfree := rawFree_bind hargs hvalues
  rw [← wheres_bind hvalues] at hcalls
  exact repeats_compileWith ht hcall hfree
    ⟨.of_rawFree (rawFree_wheres hfree), hcalls, fun _ => trivial⟩

/-- For every table prefix of name characters, every verb and every call without raw values that
compiles: the call in which the prefix is written before every name of a table, every name that a table
is given and every qualifier of a column compiles without a prefix to the same SQL with the same
parameters, as long as calls of functions in the keys of conditions are left as they are. They may be
written as well, as the other qualifiers, if no qualifier stands in them. -/
theorem compiles_as_written {verb : Verb} {args : List Value} {next last : Nat} {c : Compiled}
    (ht : IsNameText t.tablePrefix) (hargs : ∀ v ∈ args, v.rawFree = true)
    (h : run (verb.compile t args) next = (.ok c, last)) :
    run (verb.compile t.plain (verb.written t.mark id args)) next =
        (.ok (c.marked t.mark), last) ∧
      ((∀ call ∈ Tail.calls (verb.wheres args), qualifiers t.mark false call.toList = call.toList) →
        run (verb.compile t.plain (verb.written t.mark (qualifiers t.mark false) args)) next =
          (.ok (c.marked t.mark), last)) := by
  obtain ⟨u, hyields, rfl⟩ := yields_of_run h
  have hname : IsNamePart t.mark := List.all_eq_true.mp ht
  constructor
  · refine run_of_yields (repeats_compile hname (fun cs => List.Subset.refl cs) hargs ?_ _ c u hyields)
    exact fun _ _ => rfl
  · intro hcalls
    exact run_of_yields (repeats_compile hname (subset_qualifiers false) hargs hcalls _ c u hyields)

/-- A selection with a join, an index, a nested group, a comparison and all clauses. -/
theorem compiles_as_written_of_selection :
    ∃ c last,
      run (Verb.select.compile ⟨.sqlite, "p_"⟩
        [.str "posts(a)",
          .dict [(.str "a.id", .list [.str "a.title", .dict [(.str "by", .list [.str "u.name(who)"])]])],
          .dict [(.str "a.state", .str "a.on"),
            (.str "OR", .dict [(.str "u.age[>]", .int 3), (.int 0, .str "a.low[<]u.high")]),
            (.str "GROUP", .str "a.user_id"), (.str "HAVING", .dict [(.str "COUNT(*)[>]", .int 1)]),
            (.str "ORDER", .dict [(.str "a.id", .str "DESC")])],
          .dict [(.str "[>]users(u)", .dict [(.str "user_id", .str "id")])]]) 0 =
        (.ok c, last) ∧
      run (Verb.select.compile ⟨.sqlite, ""⟩
        [.str "p_posts(p_a)",
          .dict [(.str "p_a.id",
            .list [.str "p_a.title", .dict [(.str "by", .list [.str "p_u.name(who)"])]])],
          .dict [(.str "p_a.state", .str "a.on"),
            (.str "OR", .dict [(.str "p_u.age[>]", .int 3), (.int 0, .str "p_a.low[<]p_u.high")]),
            (.str "GROUP", .str "p_a.user_id"), (.str "HAVING", .dict [(.str "COUNT(*)[>]", .int 1)]),
            (.str "ORDER", .dict [(.str "p_a.id", .str "DESC")])],
          .dict [(.str "[>]p_users(p_u)", .dict [(.str "user_id", .str "id")])]]) 0 =
        (.ok (c.marked "p_".toList), last) := by
  generalize hargs : [Value.str "posts(a)",
    .dict [(.str "a.id", .list [.str "a.title", .dict [(.str "by", .list [.str "u.name(who)"])]])],
    .dict [(.str "a.state", .str "a.on"),
      (.str "OR", .dict [(.str "u.age[>]", .int 3), (.int 0, .str "a.low[<]u.high")]),
      (.str "GROUP", .str "a.user_id"), (.str "HAVING", .dict [(.str "COUNT(*)[>]", .int 1)]),
      (.str "ORDER", .dict [(.str "a.id", .str "DESC")])],
    .dict [(.str "[>]users(u)", .dict [(.str "user_id", .str "id")])]] = args
  generalize hothers : [Value.str "p_posts(p_a)",
    .dict [(.str "p_a.id",
      .list [.str "p_a.title", .dict [(.str "by", .list [.str "p_u.name(who)"])]])],
    .dict [(.str "p_a.state", .str "a.on"),
      (.str "OR", .dict [(.str "p_u.age[>]", .int 3), (.int 0, .str "p_a.low[<]p_u.high")]),
      (.str "GROUP", .str "p_a.user_id"), (.str "HAVING", .dict [(.str "COUNT(*)[>]", .int 1)]),
      (.str "ORDER", .dict [(.str "p_a.id", .str "DESC")])],
    .dict [(.str "[>]p_users(p_u)", .dict [(.str "user_id", .str "id")])]] = others
  have hwritten : Verb.select.written "p_".toList (qualifiers "p_".toList false) args = others := by
    subst hargs hothers
    rfl
  have hfree : ∀ v ∈ args, v.rawFree = true := by
    subst hargs
    decide
  have hcalls : ∀ call ∈ Tail.calls (Verb.select.wheres args),
      qualifiers "p_".toList false call.toList = call.toList := by
    subst hargs
    decide +kernel
  have hok : (run (Verb.select.compile ⟨.sqlite, "p_"⟩ args) 0).1.toOption.isSome = true := by
    subst hargs
    decide +kernel
  rcases hrun : run (Verb.select.compile ⟨.sqlite, "p_"⟩ args) 0 with ⟨_ | c, last⟩
  · rw [hrun] at hok
    cases hok
  · have hplain := (compiles_as_written (by decide) hfree hrun).2 hcalls
    rw [← hwritten]
    exact ⟨c, last, rfl, hplain⟩

/-- The qualifier in the call of a function is left without the prefix: the text is not that of the call
in which the prefix is written before it. -/
theorem qualifier_in_call_not_prefixed :
    ∃ c d last final,
      run (Verb.select.compile ⟨.sqlite, "p_"⟩
        [.str "posts", .str "*",
          .dict [(.str "GROUP", .str "posts.user_id"),
            (.str "HAVING", .dict [(.str "COUNT(posts.id)[>]", .int 1)])]]) 0 = (.ok c, last) ∧
      run (Verb.select.compile ⟨.sqlite, ""⟩
        (Verb.select.written "p_".toList (qualifiers "p_".toList false)
          [.str "posts", .str "*",
            .dict [(.str "GROUP", .str "posts.user_id"),
              (.str "HAVING", .dict [(.str "COUNT(posts.id)[>]", .int 1)])]])) 0 =
        (.ok d, final) ∧
      c.text = "SELECT * FROM \"p_posts\" GROUP BY \"p_posts\".\"user_id\" " ++
        "HAVING COUNT(posts.id) > :param_0" ∧
      d.text = "SELECT * FROM \"p_posts\" GROUP BY \"p_posts\".\"user_id\" " ++
        "HAVING COUNT(p_posts.id) > :param_0" ∧
      c.text ≠ d.text := by
  generalize hargs : [Value.str "posts", .str "*",
    .dict [(.str "GROUP", .str "posts.user_id"),
      (.str "HAVING", .dict [(.str "COUNT(posts.id)[>]", .int 1)])]] = args
  have hprefixed : (run (Verb.select.compile ⟨.sqlite, "p_"⟩ args) 0).1.toOption.map Compiled.text =
      some ("SELECT * FROM \"p_posts\" GROUP BY \"p_posts\".\"user_id\" " ++
        "HAVING COUNT(posts.id) > :param_0") := by
    subst hargs
    decide +kernel
  have hwritten : (run (Verb.select.compile ⟨.sqlite, ""⟩
      (Verb.select.written "p_".toList (qualifiers "p_".toList false) args)) 0).1.toOption.map
        Compiled.text =
      some ("SELECT * FROM \"p_posts\" GROUP BY \"p_posts\".\"user_id\" " ++
        "HAVING COUNT(p_posts.id) > :param_0") := by
    subst hargs
    decide +kernel
  rcases hrun : run (Verb.select.compile ⟨.sqlite, "p_"⟩ args) 0 with ⟨_ | c, last⟩
  · rw [hrun] at hprefixed
    cases hprefixed
  · rcases hother : run (Verb.select.compile ⟨.sqlite, ""⟩
      (Verb.select.written "p_".toList (qualifiers "p_".toList false) args)) 0 with ⟨_ | d, final⟩
    · rw [hother] at hwritten
      cases hwritten
    · rw [hrun] at hprefixed
      rw [hother] at hwritten
      have hc := Option.some.inj hprefixed
      have hd := Option.some.inj hwritten
      refine ⟨c, d, last, final, rfl, rfl, hc, hd, ?_⟩
      rw [hc, hd]
      decide

end Verb

end QueryLoom
