import QueryLoom.Proofs.Independence.Statements
import QueryLoom.Proofs.Statement.Call

/-!
No bound value ever influences the text of a statement. Two calls of one shape differ only in the
scalars of conditions, in the data that is written and in the texts that are replaced; all else, raw
values included, is the same. If both compile, they compile to the same text with the same names of
parameters.
-/

namespace QueryLoom

open Compile Conditions Statement Tail

variable {t : Target}

/-- What an argument of a verb holds. -/
inductive ArgumentKind
  /-- A table, columns, joins, a function or a raw statement: nothing that is bound. -/
  | fixed
  /-- Conditions and the clauses after them. -/
  | tail
  /-- The rows of an insertion. -/
  | rows
  /-- The data of an update. -/
  | data
  /-- The texts that are replaced, column by column. -/
  | replacements

/-- Arguments of one shape: they differ in nothing but what is bound. -/
def ArgumentKind.Alike : ArgumentKind → Value → Value → Prop
  | .fixed, v, w => v = w
  | .tail, v, w => AlikeTails v w
  | .rows, v, w => AlikeRows v w
  | .data, v, w => AlikeRow v w
  | .replacements, v, w => AlikeReplacements v w

/-- What the parameters of a verb hold. -/
def Verb.kinds : Verb → List ArgumentKind
  | .select | .get | .rand => [.fixed, .fixed, .tail, .fixed]
  | .has => [.fixed, .tail, .fixed]
  | .aggregate => [.fixed, .fixed, .fixed, .tail, .fixed]
  | .insert => [.fixed, .rows]
  | .update => [.fixed, .data, .tail]
  | .delete => [.fixed, .tail]
  | .replace => [.fixed, .replacements, .tail]
  | .raw => [.fixed]

/-- Arguments by position, each of one shape with the other. What is left out on one side is left out
on the other. -/
inductive AlikeArguments : List ArgumentKind → List Value → List Value → Prop
  | nil (kinds : List ArgumentKind) : AlikeArguments kinds [] []
  | cons {kind : ArgumentKind} {kinds : List ArgumentKind} {v w : Value} {rest others : List Value}
      (hv : kind.Alike v w) (h : AlikeArguments kinds rest others) :
      AlikeArguments (kind :: kinds) (v :: rest) (w :: others)

/-- Whether a value holds no other values. -/
def Value.IsFlat (v : Value) : Prop := v.isDict = false ∧ ∀ items, v ≠ .list items

theorem ArgumentKind.alike_self (kind : ArgumentKind) {v : Value} (hv : v.IsFlat) :
    kind.Alike v v := by
  cases kind with
  | fixed => exact rfl
  | tail => exact .same hv.1
  | rows => exact .same hv.1 hv.2
  | data => exact .same hv.1
  | replacements => exact .same hv.1

theorem isFlat_default (verb : Verb) :
    ∀ p ∈ verb.parameters, ∀ v, p.default = some v → v.IsFlat := by
  cases verb <;>
    simp [Verb.parameters, Signature.required, Signature.optional, Value.IsFlat, Value.isDict]

theorem AlikeArguments.length_eq {kinds : List ArgumentKind} {args others : List Value}
    (h : AlikeArguments kinds args others) :
    args.length = others.length ∧ args.length ≤ kinds.length := by
  induction h with
  | nil kinds => exact ⟨rfl, Nat.zero_le _⟩
  | cons _ _ ih =>
      simp only [List.length_cons]
      omega

theorem AlikeArguments.self {kinds : List ArgumentKind} {values : List Value}
    (h : ∀ v ∈ values, v.IsFlat) (hlength : values.length ≤ kinds.length) :
    AlikeArguments kinds values values := by
  induction values generalizing kinds with
  | nil => exact .nil kinds
  | cons v rest ih =>
      rw [List.forall_mem_cons] at h
      cases kinds with
      | nil => simp at hlength
      | cons kind kinds =>
          exact .cons (kind.alike_self h.1) (ih h.2 (Nat.le_of_succ_le_succ hlength))

/-- Arguments stay alike when the same defaults are added to them. -/
theorem AlikeArguments.append {kinds : List ArgumentKind} {args others defaults : List Value}
    (h : AlikeArguments kinds args others) (hdefaults : ∀ v ∈ defaults, v.IsFlat)
    (hlength : args.length + defaults.length ≤ kinds.length) :
    AlikeArguments kinds (args ++ defaults) (others ++ defaults) := by
  induction h with
  | nil kinds => exact .self hdefaults (by simpa using hlength)
  | cons hv _ ih =>
      refine .cons hv (ih ?_)
      simp only [List.length_cons] at hlength
      omega

theorem length_kinds (verb : Verb) : verb.kinds.length = verb.parameters.length := by
  cases verb <;> rfl

/-- Alike arguments of a verb, completed by its defaults. -/
theorem AlikeArguments.bind {verb : Verb} {args others values found : List Value}
    (h : AlikeArguments verb.kinds args others)
    (hvalues : Signature.bind ⟨verb.parameters, []⟩ args [] = .ok values)
    (hfound : Signature.bind ⟨verb.parameters, []⟩ others [] = .ok found) :
    AlikeArguments verb.kinds values found := by
  obtain ⟨defaults, hdefaults, rfl⟩ := Signature.bind_eq_append hvalues
  obtain ⟨same, hsame, rfl⟩ := Signature.bind_eq_append hfound
  obtain ⟨hlength, hle⟩ := h.length_eq
  rw [← hlength, hdefaults] at hsame
  cases hsame
  refine h.append ?_ ?_
  · intro v hv
    obtain ⟨p, hp, hdefault⟩ := Signature.default_of_mem_fillNamed hdefaults hv
    exact isFlat_default verb p (List.mem_of_mem_drop hp) v hdefault
  · rw [Signature.length_fillNamed hdefaults, List.length_drop, ← length_kinds]
    omega

/-- Calls of any verb with alike arguments compile to alike statements. -/
theorem Verb.agree_compile (verb : Verb) {args others : List Value}
    (h : AlikeArguments verb.kinds args others) :
    Agree AlikeCompiled (verb.compile t args) (verb.compile t others) := by
  refine (Agree.lift fun _ _ => h.bind).bind fun values found hfound => ?_
  unfold Verb.compileWith
  split
  · obtain _ | ⟨rfl, _ | ⟨rfl, _ | ⟨hwheres, _ | ⟨rfl, _ | _⟩⟩⟩⟩ := hfound
    exact agree_select _ _ _ hwheres
  · obtain _ | ⟨rfl, _ | ⟨rfl, _ | ⟨hwheres, _ | ⟨rfl, _ | _⟩⟩⟩⟩ := hfound
    exact agree_get _ _ _ hwheres
  · obtain _ | ⟨rfl, _ | ⟨rfl, _ | ⟨hwheres, _ | ⟨rfl, _ | _⟩⟩⟩⟩ := hfound
    exact agree_rand _ _ _ hwheres
  · obtain _ | ⟨rfl, _ | ⟨hwheres, _ | ⟨rfl, _ | _⟩⟩⟩ := hfound
    exact agree_has _ _ hwheres
  · obtain _ | ⟨rfl, _ | ⟨rfl, _ | ⟨rfl, _ | ⟨hwheres, _ | ⟨rfl, _ | _⟩⟩⟩⟩⟩ := hfound
    exact agree_aggregate _ _ _ _ hwheres
  · obtain _ | ⟨rfl, _ | ⟨hrows, _ | _⟩⟩ := hfound
    exact agree_insert _ hrows
  · obtain _ | ⟨rfl, _ | ⟨hdata, _ | ⟨hwheres, _ | _⟩⟩⟩ := hfound
    exact agree_update _ hdata hwheres
  · obtain _ | ⟨rfl, _ | ⟨hwheres, _ | _⟩⟩ := hfound
    exact agree_delete _ hwheres
  · obtain _ | ⟨rfl, _ | ⟨hcolumns, _ | ⟨hwheres, _ | _⟩⟩⟩ := hfound
    exact agree_replace _ hcolumns hwheres
  · obtain _ | ⟨rfl, _ | _⟩ := hfound
    exact agree_raw _
  · exact .throw_left

/-- For every verb, dialect, table prefix and state of the counter: if two calls whose arguments are
alike both compile, their texts are the same and their parameters have the same names in the same
order. -/
theorem text_independent_of_values {verb : Verb} {args others : List Value} {next last final : Nat}
    {c d : Compiled} (hargs : AlikeArguments verb.kinds args others)
    (hc : run (verb.compile t args) next = (.ok c, last))
    (hd : run (verb.compile t others) next = (.ok d, final)) :
    c.text = d.text ∧ c.params.map Prod.fst = d.params.map Prod.fst ∧ last = final := by
  obtain ⟨u, hu, rfl⟩ := yields_of_run hc
  obtain ⟨v, hv, rfl⟩ := yields_of_run hd
  obtain ⟨halike, hstates⟩ := verb.agree_compile hargs (.refl _) hu hv
  exact ⟨halike.text, halike.names, hstates.next⟩

/-- A harmless selection, and one whose values are made of quotes and SQL. -/
theorem text_independent_of_values_of_selection :
    ∃ c d last final,
      run (Verb.select.compile ⟨.postgres, "app_"⟩
        [.str "users", .str "id",
          .dict [(.str "name[~]", .list [.str "a", .str "b"]),
            (.str "OR", .dict [(.str "age[>]", .int 3), (.str "state", .null)])]]) 5 =
        (.ok c, last) ∧
      run (Verb.select.compile ⟨.postgres, "app_"⟩
        [.str "users", .str "id",
          .dict [(.str "name[~]", .list [.str "%') OR 1=1 --", .int 7]),
            (.str "OR", .dict [(.str "age[>]", .str "0; --"), (.str "state", .null)])]]) 5 =
        (.ok d, final) ∧
      c.text = d.text ∧ c.params.map Prod.fst = d.params.map Prod.fst ∧ last = final := by
  generalize hargs : [Value.str "users", .str "id",
    .dict [(.str "name[~]", .list [.str "a", .str "b"]),
      (.str "OR", .dict [(.str "age[>]", .int 3), (.str "state", .null)])]] = args
  generalize hothers : [Value.str "users", .str "id",
    .dict [(.str "name[~]", .list [.str "%') OR 1=1 --", .int 7]),
      (.str "OR", .dict [(.str "age[>]", .str "0; --"), (.str "state", .null)])]] = others
  have halike : AlikeArguments Verb.select.kinds args others := by
    subst hargs hothers
    have hpatterns : AlikeEntry (.str "name[~]") (.list [.str "a", .str "b"])
        (.list [.str "%') OR 1=1 --", .int 7]) :=
      .predicate rfl (.list (.cons (.leaf rfl rfl) (.cons (.leaf rfl rfl) .nil)))
    have hage : AlikeEntry (.str "age[>]") (.int 3) (.str "0; --") := .predicate rfl (.leaf rfl rfl)
    have hstate : AlikeEntry (.str "state") .null .null := .predicate rfl .null
    have hgroup : AlikeEntry (.str "OR") (.dict [(.str "age[>]", .int 3), (.str "state", .null)])
        (.dict [(.str "age[>]", .str "0; --"), (.str "state", .null)]) :=
      .logical rfl (.dict (.cons hage (.cons hstate .nil)))
    refine .cons rfl (.cons rfl (.cons ?_ (.nil _)))
    exact .dict (.condition rfl hpatterns (.condition rfl hgroup .nil))
  have hc : (run (Verb.select.compile ⟨.postgres, "app_"⟩ args) 5).1.toOption.isSome = true := by
    subst hargs
    decide +kernel
  have hd : (run (Verb.select.compile ⟨.postgres, "app_"⟩ others) 5).1.toOption.isSome = true := by
    subst hothers
    decide +kernel
  rcases hrun : run (Verb.select.compile ⟨.postgres, "app_"⟩ args) 5 with ⟨_ | c, last⟩
  · rw [hrun] at hc
    cases hc
  · rcases hother : run (Verb.select.compile ⟨.postgres, "app_"⟩ others) 5 with ⟨_ | d, final⟩
    · rw [hother] at hd
      cases hd
    · exact ⟨c, d, last, final, rfl, rfl, text_independent_of_values halike hrun hother⟩

end QueryLoom
