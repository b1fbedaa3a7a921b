import QueryLoom.Proofs.Renumbering.Statements
import QueryLoom.Proofs.Statement.Alignment

/-!
Compilation does not depend on its history. Compilers that share a counter compile calls one after the
other; what was compiled before moves the numbers of a statement and changes nothing else. Each call
is given numbers of its own, so no two statements share a name that the counter gave.
-/

namespace QueryLoom

open Compile Parameters Renumbering

/-! Calls of verbs. -/

section Calls

variable {φ : Renumbering} {t : Target}

theorem Statement.bringsOnly_bind {P : String → Prop} {verb : Verb} {args values : List Value}
    (hargs : ∀ v ∈ args, v.BringsOnly P)
    (h : Signature.bind ⟨verb.parameters, []⟩ args [] = .ok values) :
    ∀ v ∈ values, v.BringsOnly P := by
  obtain ⟨defaults, hdefaults, rfl⟩ := Signature.bind_eq_append h
  intro v hv
  rcases List.mem_append.mp hv with hv | hv
  · exact hargs v hv
  · obtain ⟨p, hp, hdefault⟩ := Signature.default_of_mem_fillNamed hdefaults hv
    exact .of_rawFree (rawFree_default verb p (List.mem_of_mem_drop hp) v hdefault)

/-- Calls of any verb compile further on as they compile here. -/
theorem Verb.follows_compile (verb : Verb) {args : List Value}
    (hargs : ∀ v ∈ args, v.BringsOnly φ.Brought) :
    φ.Follows φ.compiled (verb.compile t args) (verb.compile t args) := by
  refine (follows_lift_id (Signature.blameless_bind _ _ _)).bind_of fun values hvalues => ?_
  obtain ⟨_, _, hyields⟩ := hvalues
  have hbrings := Statement.bringsOnly_bind hargs ((yields_lift _).mp hyields).1
  dsimp only [id_eq]
  unfold Verb.compileWith
  split
  · exact Statement.follows_select _ _ (hbrings _ (by simp)) (hbrings _ (by simp))
  · exact Statement.follows_get _ _ (hbrings _ (by simp)) (hbrings _ (by simp))
  · exact Statement.follows_rand _ _ (hbrings _ (by simp)) (hbrings _ (by simp))
  · exact Statement.follows_has _ _ (hbrings _ (by simp))
  · exact Statement.follows_aggregate _ _ _ (hbrings _ (by simp)) (hbrings _ (by simp))
  · exact Statement.follows_insert _ (hbrings _ (by simp))
  · exact Statement.follows_update _ (hbrings _ (by simp)) (hbrings _ (by simp))
  · exact Statement.follows_delete _ (hbrings _ (by simp))
  · exact Statement.follows_replace _ _ (hbrings _ (by simp))
  · exact Statement.follows_raw (hbrings _ (by simp))
  · exact .throw (.error rfl)

end Calls

/-! What a statement is finished with. -/

namespace Statement

variable {α : Type} {t : Target}

/-- The statement that a step yields is finished with all that is bound. -/
def Finishes (m : Compile Compiled) : Prop := ∀ s c u, m.Yields s c u → c.params = u.bound

theorem finishes_finish (sql : Sql) (columns : Option ColumnTree) :
    Finishes (finish t sql columns) := by
  intro s c u h
  simp only [finish, yields_bind, yields_get, yields_pure] at h
  obtain ⟨_, _, ⟨rfl, rfl⟩, rfl, rfl⟩ := h
  rfl

theorem finishes_throw (fault : Fault) : Finishes (throw fault) := by
  intro s c u h
  simp at h

theorem Finishes.bind {m : Compile α} {k : α → Compile Compiled} (h : ∀ a, Finishes (k a)) :
    Finishes (m >>= k) := by
  intro s c u hyields
  obtain ⟨a, v, _, hk⟩ := (yields_bind _ _).mp hyields
  exact h a v c u hk

theorem finishes_select (table columns wheres join : Value) :
    Finishes (select t table columns wheres join) :=
  .bind fun _ => .bind fun _ => .bind fun sql => finishes_finish sql _

theorem finishes_get (table columns wheres join : Value) :
    Finishes (get t table columns wheres join) := by
  intro s c u h
  obtain ⟨d, v, hd, hc⟩ := (yields_bind _ _).mp h
  rw [yields_pure] at hc
  obtain ⟨rfl, rfl⟩ := hc
  exact finishes_select _ _ _ _ s d u hd

theorem finishes_updateOf (table : Value) (sets : List Sql) (wheres : Value) :
    Finishes (updateOf t table sets wheres) :=
  .bind fun _ => .bind fun _ => finishes_finish _ _

theorem finishes_compileWith (verb : Verb) (values : List Value) :
    Finishes (verb.compileWith t values) := by
  unfold Verb.compileWith
  split
  · exact finishes_select _ _ _ _
  · exact finishes_get _ _ _ _
  · exact .bind fun _ => finishes_select _ _ _ _
  · exact .bind fun _ => finishes_finish _ _
  · unfold aggregate
    split
    · exact finishes_throw _
    · exact .bind fun _ => .bind fun _ => finishes_finish _ _
  · refine .bind fun _ => .bind fun _ => ?_
    split_ifs
    · exact .bind fun _ => .bind fun _ => .bind fun _ => .bind fun _ => finishes_finish _ _
    · exact .bind fun _ => .bind fun _ => .bind fun _ => finishes_finish _ _
  · unfold update
    split
    · exact .bind fun _ => finishes_updateOf _ _ _
    · exact finishes_throw _
  · exact .bind fun _ => .bind fun _ => finishes_finish _ _
  · unfold replace
    split
    · refine .bind fun _ => ?_
      split_ifs
      · exact .bind fun _ => finishes_updateOf _ _ _
      · exact finishes_updateOf _ _ _
    · exact finishes_throw _
  · unfold raw
    split
    · exact .bind fun _ => finishes_finish _ _
    · exact finishes_throw _
  · exact finishes_throw _

end Statement

open Statement

/-! Requests. -/

/-- A call of a verb, and for whom it is compiled. -/
structure Request where
  target : Target
  verb : Verb
  args : List Value

namespace Request

def compile (r : Request) : Compile Compiled := r.verb.compile r.target r.args

/-- Whether no argument holds a raw value. -/
def rawFree (r : Request) : Bool := r.args.all Value.rawFree

/-- The names that raw values of a request bring. -/
def brought (r : Request) : List String := r.args.flatMap Value.rawNames

/-- Compiles requests one after the other with one counter; a request that fails keeps the numbers it
was given. -/
def compileAll (next : Nat) : List Request → List (Except Fault Compiled) × Nat
  | [] => ([], next)
  | r :: rest =>
      let (outcome, next) := run r.compile next
      let (outcomes, last) := compileAll next rest
      (outcome :: outcomes, last)

variable {r : Request} {c : Compiled} {next : Nat}

theorem brought_of_rawFree (h : r.rawFree = true) : r.brought = [] := by
  rw [rawFree, List.all_eq_true] at h
  rw [brought, List.flatMap_eq_nil_iff]
  exact fun v hv => Value.rawNames_of_rawFree.1 v (h v hv)

theorem follows_compile {φ : Renumbering} (h : ∀ name ∈ r.brought, φ.Brought name) :
    φ.Follows φ.compiled r.compile r.compile :=
  r.verb.follows_compile fun _ hv name hname => h name (List.mem_flatMap.mpr ⟨_, hv, hname⟩)

theorem ready_start {φ : Renumbering} (h : φ.least ≤ next) : φ.Ready (start next) :=
  ⟨rfl, h, by simp [names, start]⟩

/-- A request is given numbers from where the counter stands on. -/
structure Numbers (r : Request) (next last : Nat) (c : Compiled) : Prop where
  placeholders : ∀ name ∈ c.sql.params, ∃ i, next ≤ i ∧ i < last ∧ name = generated i
  bound : ∀ name ∈ c.params.map Prod.fst,
    (∃ i, next ≤ i ∧ i < last ∧ name = generated i) ∨ name ∈ r.brought

/-- Names with numbers in a range. All other names are changed, so that SQL that stays as it is has no
others. -/
def within (next last : Nat) (Brought : String → Prop) : Renumbering where
  offset := 0
  least := next
  limit := last
  Brought := Brought
  placed name :=
    if (Parameters.number? name).any fun i => next ≤ i && i < last then name else name ++ " "
  placed_generated i hle hlt := by simp [hle, hlt]
  renumber_brought name _ := renumber_zero name

theorem generated_of_placed_within {last : Nat} {Brought : String → Prop} {name : String}
    (h : (within next last Brought).placed name = name) :
    ∃ i, next ≤ i ∧ i < last ∧ name = generated i := by
  unfold within at h
  dsimp only at h
  split_ifs at h with hgiven
  · obtain ⟨i, hi, hrange⟩ := (Option.any_eq_true _ _).mp hgiven
    simp only [Bool.and_eq_true, decide_eq_true_eq] at hrange
    exact ⟨i, hrange.1, hrange.2, generated_of_number? hi⟩
  · have hlength := congrArg String.length h
    simp at hlength

theorem params_sql (c : Compiled) : c.sql.params = c.body.params := by
  unfold Compiled.sql
  split_ifs <;> simp

/-- A request gives no number back, and takes those from where the counter stands on. -/
theorem numbers_run (r : Request) (next : Nat) :
    next ≤ (run r.compile next).2 ∧
      ∀ c, (run r.compile next).1 = .ok c → r.Numbers next (run r.compile next).2 c := by
  let φ := within next (run r.compile next).2 (· ∈ r.brought)
  have hready : φ.Ready (start next) := ready_start (Nat.le_refl next)
  have hbrought : ∀ name ∈ r.brought, φ.Brought name := fun _ h => h
  obtain ⟨result, u, hrun, houtcome, hagain⟩ := follows_compile hbrought hready
  have hlast : run r.compile next = (result, u.next) := by rw [run, hrun]
  have hsame : result = result.map φ.compiled := by
    have hstart : (start next).shift φ.offset = start next := rfl
    have hlimit : u.next ≤ φ.limit := Nat.le_of_eq (congrArg Prod.snd hlast).symm
    have htwice := hagain hlimit
    rw [hstart, hrun] at htwice
    exact congrArg Prod.fst htwice
  rw [hlast]
  refine ⟨houtcome.next, fun c hc => ?_⟩
  have hresult : result = .ok c := hc
  refine ⟨fun name hname => ?_, fun name hname => ?_⟩
  · rw [hresult] at hsame
    have hbody : c.body = c.body.mapParams φ.placed := congrArg Compiled.body (Except.ok.inj hsame)
    have hparams := congrArg Sql.params hbody
    rw [Sql.params_mapParams] at hparams
    rw [params_sql] at hname
    have hfixed : φ.placed name = name :=
      List.map_inj_left.mp (hparams.symm.trans (List.map_id _).symm) name hname
    have hgiven := generated_of_placed_within hfixed
    rwa [hlast] at hgiven
  · have hbound : c.params = u.bound :=
      Finishes.bind (finishes_compileWith r.verb) _ c u ⟨by rw [← hresult]; exact hrun⟩
    rw [hbound] at hname
    exact houtcome.ready.names name hname

theorem le_compileAll (next : Nat) (requests : List Request) :
    next ≤ (compileAll next requests).2 := by
  induction requests generalizing next with
  | nil => exact Nat.le_refl next
  | cons r rest ih => exact Nat.le_trans (numbers_run r next).1 (ih _)

/-- A statement of a sequence took its numbers below where the counter stands at the end. -/
theorem numbers_compileAll (next : Nat) {requests : List Request} {i : Nat}
    (hr : requests[i]? = some r) (hc : (compileAll next requests).1[i]? = some (.ok c)) :
    ∃ start last, last ≤ (compileAll next requests).2 ∧ r.Numbers start last c := by
  induction requests generalizing next i with
  | nil => simp at hr
  | cons request rest ih =>
      cases i with
      | zero =>
          cases hr
          have hrun : (run r.compile next).1 = .ok c := by simpa [compileAll] using hc
          exact ⟨next, _, le_compileAll _ rest, (numbers_run r next).2 c hrun⟩
      | succ i => exact ih (run request.compile next).2 hr hc

/-- A step that brings only names which the counter cannot give compiles from any number on as it
compiles from zero. -/
theorem run_of_follows {m : Compile Compiled} {P : String → Prop}
    (hP : ∀ name, P name → Parameters.number? name = none)
    (h : ∀ φ : Renumbering, (∀ name, P name → φ.Brought name) → φ.Follows φ.compiled m m) (n : Nat) :
    run m n = ((run m 0).1.map (Compiled.renumber n), (run m 0).2 + n) ∧
      ∀ name v w, (run m n).1 = .error (.duplicateParameter name v w) → P name := by
  let φ : Renumbering :=
    { offset := n
      least := 0
      limit := (run m 0).2
      Brought := P
      placed := Parameters.renumber n
      placed_generated := fun i _ _ => renumber_generated n i
      renumber_brought := fun name hname => renumber_of_none (hP name hname) n }
  have hready : φ.Ready (start 0) := ready_start (Nat.le_refl 0)
  obtain ⟨result, u, hrun, houtcome, hshifted⟩ := h φ (fun _ hname => hname) hready
  have hfresh : run m 0 = (result, u.next) := by rw [run, hrun]
  have hlimit : u.next ≤ φ.limit := Nat.le_of_eq (congrArg Prod.snd hfresh).symm
  have hstart : (start 0).shift φ.offset = start n := by
    simp [Parameters.shift, start, φ]
  have hmoved : run m n = (result.map (Compiled.renumber n), u.next + n) := by
    rw [run, ← hstart, hshifted hlimit]
    rfl
  rw [hfresh, hmoved]
  refine ⟨rfl, fun name v w hfault => ?_⟩
  cases result with
  | error fault => exact houtcome.brought name v w hfault
  | ok c => cases hfault

/-- A request without raw values compiles from any number on as it compiles from zero. -/
theorem run_of_rawFree (h : r.rawFree = true) (n : Nat) :
    run r.compile n = ((run r.compile 0).1.map (Compiled.renumber n), (run r.compile 0).2 + n) ∧
      ∀ name v w, (run r.compile n).1 ≠ .error (.duplicateParameter name v w) := by
  refine run_of_follows (P := fun _ => False) (fun _ hname => hname.elim) (fun φ _ => ?_) n
  refine follows_compile fun name hname => ?_
  rw [brought_of_rawFree h] at hname
  cases hname

/-- Where the counter stands after a history of requests, whatever became of them. -/
def counterAfter (history : List Request) : Nat := (compileAll 0 history).2

/-- For every history of requests that share a counter, whatever became of them, and for every request
after it. Without raw values the request fails with the same fault as with a fresh counter, or gives
the same statement with its numbers moved to where the counter stands, and the counter moves by as
much; it never finds a name bound twice. With or without raw values, its statement has no placeholder
in common with an earlier one, and no name of a parameter that a raw value of either did not bring. -/
theorem compile_independent_of_history (history : List Request) (r : Request) :
    (r.rawFree = true →
      run r.compile (counterAfter history) =
          ((run r.compile 0).1.map (Compiled.renumber (counterAfter history)),
            (run r.compile 0).2 + counterAfter history) ∧
        ∀ name v w, (run r.compile (counterAfter history)).1 ≠
          .error (.duplicateParameter name v w)) ∧
      ∀ (i : Nat) (earlier : Request) (c d : Compiled), history[i]? = some earlier →
        (compileAll 0 history).1[i]? = some (.ok c) →
        (run r.compile (counterAfter history)).1 = .ok d →
        (∀ name ∈ c.sql.params, name ∉ d.sql.params) ∧
          ∀ name ∈ c.params.map Prod.fst, name ∈ d.params.map Prod.fst →
            name ∈ earlier.brought ∨ name ∈ r.brought := by
  refine ⟨fun hfree => run_of_rawFree hfree _, fun i earlier c d hearlier hc hd => ?_⟩
  obtain ⟨start, last, hlast, hfirst⟩ := numbers_compileAll 0 hearlier hc
  have hsecond := (numbers_run r (counterAfter history)).2 d hd
  -- the numbers of the earlier statement end where those of the later one begin
  have hapart : ∀ {a b : Nat}, a < last → counterAfter history ≤ b → generated a ≠ generated b := by
    intro a b ha hb heq
    have hsame := generated_injective heq
    have hend : last ≤ counterAfter history := hlast
    omega
  constructor
  · intro name hname hagain
    obtain ⟨a, _, ha, rfl⟩ := hfirst.placeholders name hname
    obtain ⟨b, hb, _, heq⟩ := hsecond.placeholders _ hagain
    exact hapart ha hb heq
  · intro name hname hagain
    rcases hfirst.bound name hname with ⟨a, _, ha, rfl⟩ | hbrought
    · rcases hsecond.bound _ hagain with ⟨b, hb, _, heq⟩ | hbrought
      · exact absurd heq (hapart ha hb)
      · exact .inr hbrought
    · exact .inl hbrought

/-- A selection after a selection that failed with one number given, and a deletion with two. The
literal that it orders by looks like a placeholder and stays. -/
theorem compile_independent_of_history_of_selection :
    ∃ (history : List Request) (r : Request) (c d : Compiled),
      history =
        [⟨⟨.sqlite, ""⟩, .select, [.str "users", .str "*",
          .dict [(.str "age[>]", .int 3), (.str "id", .dict [])]]⟩,
        ⟨⟨.postgres, "app_"⟩, .delete, [.str "users",
          .dict [(.str "id", .list [.int 1, .int 2])]]⟩] ∧
      r = ⟨⟨.mysql, "app_"⟩, .select, [.str "users", .str "id", .dict [(.str "name", .str "x"),
        (.str "ORDER", .dict [(.str "state", .list [.str ":param_0"])])]]⟩ ∧
      run r.compile 0 = (.ok c, 1) ∧
      c.text = "SELECT \"id\" FROM \"app_users\" WHERE \"name\" = :param_0 " ++
        "ORDER BY FIELD(\"state\", ':param_0')" ∧
      run r.compile (counterAfter history) = (.ok d, 4) ∧
      d.text = "SELECT \"id\" FROM \"app_users\" WHERE \"name\" = :param_3 " ++
        "ORDER BY FIELD(\"state\", ':param_0')" := by
  obtain ⟨history, hhistory⟩ : ∃ history : List Request, history =
      [⟨⟨.sqlite, ""⟩, .select, [.str "users", .str "*",
        .dict [(.str "age[>]", .int 3), (.str "id", .dict [])]]⟩,
      ⟨⟨.postgres, "app_"⟩, .delete, [.str "users",
        .dict [(.str "id", .list [.int 1, .int 2])]]⟩] := ⟨_, rfl⟩
  obtain ⟨r, hrequest⟩ : ∃ r : Request, r =
      ⟨⟨.mysql, "app_"⟩, .select, [.str "users", .str "id", .dict [(.str "name", .str "x"),
        (.str "ORDER", .dict [(.str "state", .list [.str ":param_0"])])]]⟩ := ⟨_, rfl⟩
  have hcounter : counterAfter history = 3 := by
    subst hhistory
    decide +kernel
  have hfree : r.rawFree = true := by
    subst hrequest
    decide
  have hfresh : (run r.compile 0).2 = 1 := by
    subst hrequest
    decide +kernel
  have htexts : (run r.compile 0).1.toOption.map (fun c => (c.text, (c.renumber 3).text)) =
      some ("SELECT \"id\" FROM \"app_users\" WHERE \"name\" = :param_0 " ++
        "ORDER BY FIELD(\"state\", ':param_0')",
        "SELECT \"id\" FROM \"app_users\" WHERE \"name\" = :param_3 " ++
        "ORDER BY FIELD(\"state\", ':param_0')") := by
    subst hrequest
    decide +kernel
  have hshifted := ((compile_independent_of_history history r).1 hfree).1
  rcases hrun : run r.compile 0 with ⟨_ | c, last⟩
  · simp [hrun, Except.toOption] at htexts
  · simp only [hrun, Except.toOption, Option.map_some, Option.some.injEq, Prod.mk.injEq] at htexts
    rw [hrun] at hfresh hshifted
    cases hfresh
    rw [hcounter] at hshifted
    refine ⟨history, r, c, c.renumber 3, hhistory, hrequest, hrun, htexts.1, ?_, htexts.2⟩
    rw [hcounter, hshifted]
    rfl

end Request

end QueryLoom
