import QueryLoom.Proofs.Renumbering.Refusals

/-!
What a step of compilation binds. The bindings that a step asks for are a list that can be read off
its input; to supply such a list is to bind one value after the other and nothing else. A step makes
a list of bindings if it ends as the supply of the list does, unless it is refused on the way.
-/

namespace QueryLoom

/-- A binding that is asked for. -/
inductive Supply
  /-- A value that is bound under the next name of the counter. -/
  | value (v : Value)
  /-- An entry of the map of a raw value, which brings its own name. -/
  | entry (key v : Value)

namespace Supply

/-- The value that is bound. -/
def payload : Supply → Value
  | .value v => v
  | .entry _ v => v

/-- The entries of the map of a raw value. -/
def ofMap (parameters : Dict) : List Supply := parameters.map fun (key, v) => .entry key v

end Supply

namespace Compile

/-- Binds one value after the other. -/
def supply : List Supply → Compile Unit
  | [] => pure ()
  | .value v :: rest => do
      let _ ← addValue v
      supply rest
  | .entry key v :: rest => do
      bindName (parameterName key) v
      supply rest

theorem supply_append (xs ys : List Supply) :
    supply (xs ++ ys) = (do supply xs; supply ys) := by
  induction xs with
  | nil => simp [supply]
  | cons x rest ih => cases x <;> simp [supply, ih]

variable {α β : Type} {xs ys : List Supply} {s u : Parameters}

/-- How a step ends that asks for bindings. It has made them all; or it is refused after some of
them, for a reason that is not a name bound twice; or it ends as the supply itself does, which finds
a value that cannot be bound. -/
inductive Ends (xs : List Supply) (s : Parameters) : Except Fault α × Parameters → Prop
  | made {a : α} {u : Parameters} (h : (supply xs).Yields s () u) : Ends xs s (.ok a, u)
  | refused {fault : Fault} {u : Parameters} {done : List Supply}
      (hfault : fault.blamesName = false) (hdone : done <+: xs)
      (h : (supply done).Yields s () u) : Ends xs s (.error fault, u)
  | clashed {fault : Fault} {u : Parameters}
      (h : (ExceptT.run (supply xs)).run s = (.error fault, u)) : Ends xs s (.error fault, u)

/-- The step makes the bindings, whatever state it starts in. -/
def Makes (m : Compile α) (xs : List Supply) : Prop :=
  ∀ s, Ends xs s ((ExceptT.run m).run s)

namespace Makes

theorem pure (a : α) : Makes (Pure.pure a) [] := fun _ =>
  .made ((yields_pure ()).mpr ⟨rfl, rfl⟩)

/-- A step that is refused at once makes any bindings up to there. -/
theorem refuse {fault : Fault} (h : fault.blamesName = false) (xs : List Supply) :
    Makes (throw fault : Compile α) xs := fun _ =>
  .refused h (List.nil_prefix : [] <+: xs) ((yields_pure ()).mpr ⟨rfl, rfl⟩)

theorem refuse_showing {v : Value} {fault : Fault} (h : fault.blamesName = false)
    (xs : List Supply) : Makes (throw (.showing v fault) : Compile α) xs :=
  refuse (Fault.blamesName_showing h) xs

theorem lift {x : Except Fault α} (h : Blameless x) : Makes (Compile.lift x) [] := by
  cases x with
  | ok a => exact .pure a
  | error fault =>
      refine .refuse ?_ []
      cases fault with
      | duplicateParameter name v w => exact absurd rfl (h name v w)
      | _ => rfl

/-- A step that goes on from what another step may yield. -/
theorem bind_of {m : Compile α} {k : α → Compile β} (h : Makes m xs)
    (hk : ∀ a, (∃ s u, m.Yields s a u) → Makes (k a) ys) : Makes (m >>= k) (xs ++ ys) := by
  intro s
  have hfirst := h s
  simp only [ExceptT.run_bind, StateT.run_bind]
  rcases hm : (ExceptT.run m).run s with ⟨fault | a, u⟩
  · rw [hm] at hfirst
    cases hfirst with
    | refused hfault hdone hsupply =>
        exact .refused hfault (hdone.trans (List.prefix_append xs ys)) hsupply
    | clashed hsupply =>
        refine .clashed ?_
        rw [supply_append, ExceptT.run_bind, StateT.run_bind, hsupply]
        rfl
  · rw [hm] at hfirst
    cases hfirst with
    | made hsupply =>
        have hjoin : ∀ {zs v}, (supply zs).Yields u () v → (supply (xs ++ zs)).Yields s () v := by
          intro zs v hzs
          rw [supply_append, yields_bind]
          exact ⟨(), u, hsupply, hzs⟩
        have hrest := hk a ⟨s, u, ⟨hm⟩⟩ u
        change Ends (xs ++ ys) s ((ExceptT.run (k a)).run u)
        rcases hend : (ExceptT.run (k a)).run u with ⟨fault | b, v⟩
        · rw [hend] at hrest
          cases hrest with
          | refused hfault hdone hmore =>
              exact .refused hfault ((List.prefix_append_right_inj xs).mpr hdone) (hjoin hmore)
          | clashed hmore =>
              refine .clashed ?_
              rw [supply_append, ExceptT.run_bind, StateT.run_bind, hsupply.run]
              exact hmore
        · rw [hend] at hrest
          cases hrest with
          | made hmore => exact .made (hjoin hmore)

theorem bind {m : Compile α} {k : α → Compile β} (h : Makes m xs) (hk : ∀ a, Makes (k a) ys) :
    Makes (m >>= k) (xs ++ ys) :=
  h.bind_of fun a _ => hk a

/-- A step after one that binds nothing. -/
theorem after {m : Compile α} {k : α → Compile β} (h : Makes m []) (hk : ∀ a, Makes (k a) ys) :
    Makes (m >>= k) ys :=
  h.bind hk

/-- A step before one that binds nothing. -/
theorem before {m : Compile α} {k : α → Compile β} (h : Makes m xs) (hk : ∀ a, Makes (k a) []) :
    Makes (m >>= k) xs := by
  have hbind := h.bind hk
  rwa [List.append_nil] at hbind

/-- A step after what another one may yield, which binds nothing. -/
theorem after_of {m : Compile α} {k : α → Compile β} (h : Makes m [])
    (hk : ∀ a, (∃ s u, m.Yields s a u) → Makes (k a) ys) : Makes (m >>= k) ys :=
  h.bind_of hk

/-- A function of results binds nothing. -/
theorem map {m : Compile α} (h : Makes m xs) (f : α → β) : Makes (do return f (← m)) xs :=
  h.before fun a => .pure (f a)

/-- A step that ends as another one. -/
theorem of_supply {m : Compile α} (f : Unit → α) (h : m = (do return f (← supply xs))) :
    Makes m xs := by
  have hsupply : Makes (supply xs) xs := by
    intro s
    rcases hend : (ExceptT.run (supply xs)).run s with ⟨fault | _, u⟩
    · exact .clashed hend
    · exact .made ⟨hend⟩
  rw [h]
  exact hsupply.map f

theorem addValue (v : Value) : Makes (Compile.addValue v) [.value v] := by
  intro s
  have hsupply : supply [.value v] = (do let _ ← Compile.addValue v; Pure.pure ()) := rfl
  rcases hend : (ExceptT.run (Compile.addValue v)).run s with ⟨fault | name, u⟩
  · refine .clashed ?_
    rw [hsupply, ExceptT.run_bind, StateT.run_bind, hend]
    rfl
  · refine .made ?_
    rw [hsupply, yields_bind]
    exact ⟨name, u, ⟨hend⟩, (yields_pure ()).mpr ⟨rfl, rfl⟩⟩

theorem bindValue (v : Value) : Makes (Compile.bindValue v) [.value v] :=
  (addValue v).map fun name => ([.param name] : Sql)

theorem requireText (v : Value) : Makes (Compile.requireText v) [] :=
  .lift (Renumbering.blameless_checkText v)

theorem bindName (key v : Value) :
    Makes (Compile.bindName (parameterName key) v) [.entry key v] := by
  refine .of_supply id ?_
  simp [supply]

/-- The entries of a map ask for their bindings, each of them after its name has a text. -/
theorem merge (parameters : Dict) : Makes (Compile.merge parameters) (Supply.ofMap parameters) := by
  induction parameters with
  | nil => exact .pure ()
  | cons entry rest ih =>
      obtain ⟨key, v⟩ := entry
      exact (requireText key).after fun _ => (bindName key v).bind fun _ => ih

theorem splice (tablePrefix raw : String) (parameters : Dict) :
    Makes (Compile.splice tablePrefix raw parameters) (Supply.ofMap parameters) :=
  (merge parameters).map fun _ => ([.fragment (Fragment.expand tablePrefix raw)] : Sql)

end Makes

/-- A step that succeeds ends in the state that the supply of its bindings ends in. -/
theorem Makes.yields {m : Compile α} {a : α} (h : Makes m xs) (hm : m.Yields s a u) :
    (supply xs).Yields s () u := by
  have hend := h s
  rw [hm.run] at hend
  cases hend with
  | made hsupply => exact hsupply

end Compile

end QueryLoom
