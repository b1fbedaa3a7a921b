import QueryLoom.Proofs.Conditions.Predicate
import QueryLoom.Proofs.Renumbering.Following
import QueryLoom.Proofs.Statement.Call

/-!
What is refused before anything is bound: keys, names, columns, stored values and the arguments of a
call. None of these refusals is that of a name that is bound twice, and those of keys, names and columns
are faults of compilation.
-/

namespace QueryLoom

namespace Blameless

variable {α β : Type}

theorem ok (a : α) : Blameless (.ok a) := by
  intro name v w h
  cases h

theorem wrongKind : Blameless (.error .wrongKind : Except Fault α) := .error rfl

theorem bind {x : Except Fault α} {k : α → Except Fault β} (hx : Blameless x)
    (hk : ∀ a, Blameless (k a)) : Blameless (x >>= k) := by
  cases x with
  | error fault =>
      intro name v w h
      cases h
      exact hx name v w rfl
  | ok a => exact hk a

end Blameless

/-- A check that refuses only by faults of compilation, none of which blames a name, or because what
it is given is without a text. -/
def Typed {α : Type} (textless : Prop) (x : Except Fault α) : Prop :=
  ∀ fault, x = .error fault →
    fault.isCompilation = true ∧ fault.blamesName = false ∨ fault = .badValue ∧ textless

namespace Typed

variable {α β : Type} {textless other : Prop}

theorem ok (a : α) : Typed textless (.ok a) := by
  intro fault h
  cases h

theorem error {fault : Fault} (h : fault.isCompilation = true) (hname : fault.blamesName = false) :
    Typed textless (.error fault : Except Fault α) := by
  intro other heq
  cases heq
  exact .inl ⟨h, hname⟩

/-- A fault whose message shows a value. -/
theorem showing {v : Value} {fault : Fault} (h : fault.isCompilation = true)
    (hname : fault.blamesName = false) (hv : ¬v.hasText = true → textless) :
    Typed textless (.error (.showing v fault) : Except Fault α) := by
  intro other heq
  cases heq
  unfold Fault.showing
  split_ifs with htext
  · exact .inl ⟨h, hname⟩
  · exact .inr ⟨rfl, hv htext⟩

theorem mono {x : Except Fault α} (h : Typed textless x) (himp : textless → other) :
    Typed other x :=
  fun fault hfault => (h fault hfault).imp_right (And.imp_right himp)

theorem bind {x : Except Fault α} {k : α → Except Fault β} (hx : Typed textless x)
    (hk : ∀ a, Typed textless (k a)) : Typed textless (x >>= k) := by
  cases x with
  | error fault =>
      intro other h
      cases h
      exact hx fault rfl
  | ok a => exact hk a

theorem orFault {fault : Reason → Fault} {x : Except Reason α}
    (h : ∀ reason, Typed textless (.error (fault reason) : Except Fault α)) :
    Typed textless (Key.orFault fault x) := by
  cases x with
  | error reason => exact h reason
  | ok a => exact ok a

theorem blameless {x : Except Fault α} (h : Typed textless x) : Blameless x := by
  rintro name v w rfl
  rcases h _ rfl with ⟨-, hname⟩ | ⟨hfault, -⟩
  · cases hname
  · cases hfault

end Typed

/-! Keys and names. -/

namespace Key

theorem typed_columnRef (text : String) : Typed False (columnRef text) :=
  .orFault fun _ => .error rfl rfl

theorem typed_rawColumnKey (key : String) : Typed False (rawColumnKey key) :=
  .orFault fun _ => .error rfl rfl

theorem typed_conditionKey (key : String) : Typed False (conditionKey key) :=
  .orFault fun _ => .error rfl rfl

theorem typed_joinKey (key : String) : Typed False (joinKey key) :=
  .orFault fun _ => .error rfl rfl

theorem typed_dataKey (key : Value) : Typed (¬key.hasText = true) (dataKey key) := by
  cases key with
  | str key => exact .orFault fun _ => .error rfl rfl
  | _ => exact .showing rfl rfl id

theorem typed_tableRefOfValue (v : Value) : Typed (¬v.hasText = true) (tableRefOfValue v) := by
  cases v with
  | str text =>
      rw [tableRefOfValue, tableRef]
      split
      · exact .ok _
      · exact .error rfl rfl
  | _ => exact .showing rfl rfl id

end Key

namespace Identifier

theorem typed_check (kind : NameKind) (v : Value) : Typed (¬v.hasText = true) (check kind v) := by
  cases v with
  | str s =>
      rw [check]
      split_ifs
      · exact .ok _
      · exact .error rfl rfl
  | _ => exact .showing rfl rfl id

theorem typed_bare (v : Value) : Typed (¬v.hasText = true) (bare v) :=
  (typed_check _ v).bind fun _ => .ok _

theorem typed_table (tablePrefix : String) (v : Value) :
    Typed (¬v.hasText = true) (table tablePrefix v) :=
  (typed_check _ v).bind fun _ => .ok _

/-- A text has itself for a text. -/
theorem hasText_str {s : String} : ¬(¬(Value.str s).hasText = true) := not_not_intro rfl

theorem typed_column (tablePrefix : String) (v : Value) :
    Typed (¬v.hasText = true) (column tablePrefix v) := by
  cases v with
  | str s =>
      rw [column]
      split
      · split_ifs
        · exact .error rfl rfl
        · refine ((typed_table _ _).mono fun h => (hasText_str h).elim).bind fun _ => ?_
          exact ((typed_bare _).mono fun h => (hasText_str h).elim).bind fun _ => .ok _
      · exact typed_bare _
  | _ => exact typed_bare _

theorem typed_tableRef (tablePrefix : String) (ref : TableRef) :
    Typed False (tableRef tablePrefix ref) := by
  refine ((typed_table _ _).mono hasText_str).bind fun sql => ?_
  split
  · exact .ok _
  · exact ((typed_table _ _).mono hasText_str).bind fun _ => .ok _

end Identifier

/-! Columns. -/

namespace ColumnSpec

theorem typed_groupKey (key : Value) : Typed (¬key.hasText = true) (groupKey key) := by
  cases key with
  | str key =>
      rw [groupKey]
      split_ifs
      · exact .showing rfl rfl id
      · exact .ok _
  | _ => exact .showing rfl rfl id

theorem typed_nodes :
    (∀ key v : Value, Typed (¬(Value.dict [(key, v)]).hasText = true) (mappedNode key v)) ∧
    (∀ entries : List (Value × Value),
      Typed (¬(Value.dict entries).hasText = true) (mappedNodes entries)) ∧
    (∀ items : List Value, Typed (¬(Value.list items).hasText = true) (listNodes items)) := by
  have hkey : ∀ {key v : Value}, ¬key.hasText = true → ¬(Value.dict [(key, v)]).hasText = true :=
    mt fun h => (Value.hasText_dict.mp h _ List.mem_cons_self).1
  have hvalue : ∀ {key v : Value}, ¬v.hasText = true → ¬(Value.dict [(key, v)]).hasText = true :=
    mt fun h => (Value.hasText_dict.mp h _ List.mem_cons_self).2
  have hhead : ∀ {v : Value} {rest : List Value}, ¬v.hasText = true →
      ¬(Value.list (v :: rest)).hasText = true :=
    mt fun h => Value.hasText_list.mp h _ List.mem_cons_self
  have htail : ∀ {v : Value} {rest : List Value}, ¬(Value.list rest).hasText = true →
      ¬(Value.list (v :: rest)).hasText = true :=
    mt fun h => Value.hasText_list.mpr (List.forall_mem_cons.mp (Value.hasText_list.mp h)).2
  apply mappedNode.mutual_induct
  · intro sql parameters key
    exact ((Key.typed_rawColumnKey key).mono False.elim).bind fun _ => .ok _
  · intro sql parameters key hname
    cases key with
    | str key => exact absurd rfl (hname key)
    | _ => exact .showing rfl rfl hkey
  · intro key items ih
    exact ((typed_groupKey key).mono hkey).bind fun _ => (ih.mono hvalue).bind fun _ => .ok _
  · intro key entries ih
    exact ((typed_groupKey key).mono hkey).bind fun _ => (ih.mono hvalue).bind fun _ => .ok _
  · intro key v hraw hlist hdict
    cases v with
    | raw sql parameters => exact absurd rfl (hraw sql parameters)
    | list items => exact absurd rfl (hlist items)
    | dict entries => exact absurd rfl (hdict entries)
    | _ => exact .showing rfl rfl id
  · exact .ok _
  · intro rest text ihrest
    have hitem : Typed (¬(Value.list (.str text :: rest)).hasText = true)
        (listItem (.str text)) :=
      ((Key.typed_columnRef text).mono False.elim).bind fun _ => .ok _
    rw [listNodes_cons]
    exact hitem.bind fun _ => (ihrest.mono htail).bind fun _ => .ok _
  · intro rest entries ihrest ih
    rw [listNodes_cons]
    exact Typed.bind (x := listItem (.dict entries)) (ih.mono hhead) fun _ =>
      (ihrest.mono htail).bind fun _ => .ok _
  · intro rest sql parameters ihrest
    rw [listNodes_cons]
    exact Typed.bind (x := listItem (.raw sql parameters)) (.showing rfl rfl hhead) fun _ =>
      (ihrest.mono htail).bind fun _ => .ok _
  · intro rest v hstr hdict hraw ihrest
    rw [listNodes_cons]
    refine Typed.bind ?_ fun _ => (ihrest.mono htail).bind fun _ => .ok _
    cases v with
    | str text => exact absurd rfl (hstr text)
    | dict entries => exact absurd rfl (hdict entries)
    | raw sql parameters => exact absurd rfl (hraw sql parameters)
    | _ => exact .showing rfl rfl hhead
  · exact .ok _
  · intro key v rest ih ihrest
    have hentry : ¬(Value.dict [(key, v)]).hasText = true →
        ¬(Value.dict ((key, v) :: rest)).hasText = true :=
      mt fun h => Value.hasText_dict.mpr fun entry hentry =>
        Value.hasText_dict.mp h entry (List.mem_cons.mpr (.inl (List.mem_singleton.mp hentry)))
    have hothers : ¬(Value.dict rest).hasText = true →
        ¬(Value.dict ((key, v) :: rest)).hasText = true :=
      mt fun h => Value.hasText_dict.mpr (List.forall_mem_cons.mp (Value.hasText_dict.mp h)).2
    exact (ih.mono hentry).bind fun _ => (ihrest.mono hothers).bind fun _ => .ok _

theorem typed_parse (v : Value) : Typed (¬v.hasText = true) (parse v) := by
  obtain ⟨_, hentries, hitems⟩ := typed_nodes
  have hkey : ∀ {key v : Value}, ¬key.hasText = true → ¬(Value.dict [(key, v)]).hasText = true :=
    mt fun h => (Value.hasText_dict.mp h _ List.mem_cons_self).1
  have hvalue : ∀ {key v : Value}, ¬v.hasText = true → ¬(Value.dict [(key, v)]).hasText = true :=
    mt fun h => (Value.hasText_dict.mp h _ List.mem_cons_self).2
  unfold parse
  split
  · exact .ok _
  · split_ifs
    · exact .ok _
    · exact ((Key.typed_columnRef _).mono False.elim).bind fun _ => .ok _
  · exact ((typed_groupKey _).mono hkey).bind fun _ =>
      ((hitems _).mono hvalue).bind fun _ => .ok _
  · exact ((typed_groupKey _).mono hkey).bind fun _ =>
      ((hentries _).mono hvalue).bind fun _ => .ok _
  · exact (hentries _).bind fun _ => .ok _
  · exact (hitems _).bind fun _ => .ok _
  · next octets =>
      have htexts := Value.hasText_list.mpr (Value.hasText_octets octets)
      exact ((hitems _).mono fun h => absurd htexts h).bind fun _ => .ok _
  · exact .showing rfl rfl id

end ColumnSpec

/-! None of these faults blames a name. -/

namespace Key

theorem blameless_conditionKey (key : String) : Blameless (conditionKey key) :=
  (typed_conditionKey key).blameless

theorem blameless_joinKey (key : String) : Blameless (joinKey key) := (typed_joinKey key).blameless

theorem blameless_dataKey (key : Value) : Blameless (dataKey key) := (typed_dataKey key).blameless

theorem blameless_tableRefOfValue (v : Value) : Blameless (tableRefOfValue v) :=
  (typed_tableRefOfValue v).blameless

end Key

namespace Identifier

theorem blameless_bare (v : Value) : Blameless (bare v) := (typed_bare v).blameless

theorem blameless_table (tablePrefix : String) (v : Value) : Blameless (table tablePrefix v) :=
  (typed_table tablePrefix v).blameless

theorem blameless_column (tablePrefix : String) (v : Value) : Blameless (column tablePrefix v) :=
  (typed_column tablePrefix v).blameless

theorem blameless_tableRef (tablePrefix : String) (ref : TableRef) :
    Blameless (tableRef tablePrefix ref) :=
  (typed_tableRef tablePrefix ref).blameless

end Identifier

theorem Conditions.blameless_likePattern (v : Value) : Blameless (likePattern v) := by
  rw [likePattern, Value.toText]
  split_ifs
  · exact .ok _
  · exact .error rfl

theorem Dialect.blameless_literals (d : Dialect) (values : List Value) :
    Blameless (values.mapM d.literal) := by
  rw [mapM_literal]
  split_ifs
  · exact .ok _
  · exact .error rfl

theorem ColumnSpec.blameless_parse (v : Value) : Blameless (parse v) := (typed_parse v).blameless

/-! Stored values. -/

namespace Json

theorem blameless_integer (i : Int) : Blameless (integer i) := by
  rw [integer]
  split_ifs
  · exact .ok _
  · exact .error rfl

theorem blameless_key (v : Value) : Blameless (key v) := by
  cases v with
  | int i => exact (blameless_integer i).bind fun _ => .ok _
  | str s => exact .ok _
  | float x => exact .ok _
  | bool b => exact .ok _
  | null => exact .ok _
  | _ => exact .wrongKind

theorem blameless_valueAt {l : Layout} (hl : ∀ v, Blameless (l.fallback v)) :
    (∀ depth v, Blameless (valueAt l depth v)) ∧
    (∀ depth (entries : List (Value × Value)), Blameless (entriesAt l depth entries)) ∧
    (∀ depth (items : List Value), Blameless (itemsAt l depth items)) := by
  apply valueAt.mutual_induct
  · exact fun _ => .ok _
  · exact fun _ _ => .ok _
  · exact fun _ i => blameless_integer i
  · exact fun _ _ => .ok _
  · exact fun _ _ => .ok _
  · exact fun _ _ ih => ih.bind fun _ => .ok _
  · exact fun _ _ ih => ih.bind fun _ => .ok _
  · intro depth v hnull hbool hint hfloat hstr hlist hdict
    rw [valueAt]
    · exact hl v
    all_goals assumption
  · exact fun _ => .ok _
  · exact fun _ _ _ ih ihrest => ih.bind fun _ => ihrest.bind fun _ => .ok _
  · exact fun _ => .ok _
  · intro depth k v rest ih ihrest
    exact (blameless_key k).bind fun _ => ih.bind fun _ => ihrest.bind fun _ => .ok _

end Json

namespace Statement

theorem blameless_storedValue (json : Bool) (v : Value) : Blameless (storedValue json v) := by
  have hwritten : Blameless (Json.write .line v) := (Json.blameless_valueAt fun _ => .wrongKind).1 0 v
  have hencoded : Blameless ((Json.write .line v).map Value.str) := by
    intro name w x h
    cases hwrite : Json.write .line v with
    | error fault =>
        rw [hwrite] at h
        cases h
        exact hwritten name w x hwrite
    | ok text =>
        rw [hwrite] at h
        cases h
  unfold storedValue
  dsimp only
  split
  · exact hencoded
  · exact hencoded
  · split_ifs
    · exact hencoded
    · exact .ok _

theorem blameless_randomOrder (t : Target) (v : Value) : Blameless (randomOrder t v) := by
  unfold randomOrder
  split
  · exact .error rfl
  · dsimp only
    split
    · exact .ok _
    · split_ifs
      · exact .error rfl
      · exact .ok _

end Statement

/-! Arguments. -/

namespace Signature

theorem blameless_fillNamed (given : List (String × Value)) (parameters : List Parameter) :
    Blameless (fillNamed given parameters) := by
  induction parameters with
  | nil => exact .ok _
  | cons p rest ih =>
      rw [fillNamed]
      split
      · exact ih.bind fun _ => .ok _
      · exact ih.bind fun _ => .ok _
      · exact .error rfl

theorem blameless_bind (s : Signature) (args : List Value) (given : List (String × Value)) :
    Blameless (bind s args given) := by
  unfold bind
  split_ifs
  · exact .wrongKind
  · dsimp only
    split_ifs
    · exact .wrongKind
    · exact (blameless_fillNamed _ _).bind fun _ => .ok _

end Signature

end QueryLoom
