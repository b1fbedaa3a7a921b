import Mathlib.Data.List.Induction
import QueryLoom.Database.Basic
import QueryLoom.Proofs.Bindings.Collisions
import QueryLoom.Proofs.Dialects.SmallLetters

/-!
Names of dialects, registered in any order and any number of times. A name leads to itself unless it
was last listed as a further name of another dialect, because further names are looked up first and a
registration leaves those that were listed before. While every registered name leads to itself,
resolving is idempotent, and a database uses what the registry has for the name in its options.
-/

namespace QueryLoom

variable {κ ν : Type}

/-- A registration: a name, what stands for the dialect, and further names that lead to it. -/
structure Registration (κ : Type) where
  name : String
  entry : κ
  aliases : List String

namespace Assoc

theorem get?_merge_const (keys : List String) (value name : String)
    (entries : List (String × String)) :
    get? name (merge entries (keys.map fun key => (key, value))) =
      if name ∈ keys then some value else get? name entries := by
  induction keys generalizing entries with
  | nil => rfl
  | cons key rest ih =>
      have hstep : merge entries ((key :: rest).map fun key => (key, value)) =
          merge (insert key value entries) (rest.map fun key => (key, value)) := rfl
      rw [hstep, ih, get?_insert]
      by_cases hrest : name ∈ rest
      · simp [hrest]
      · by_cases hkey : key = name
        · simp [hkey]
        · simp [hrest, hkey, Ne.symm hkey]

end Assoc

namespace Registration

/-- The further names in the form in which they are compared. -/
def forms (x : Registration κ) : List String := x.aliases.map DialectTable.nameForm

/-- The name in the form in which it is compared. -/
def form (x : Registration κ) : String := DialectTable.nameForm x.name

/-- The registrations of the built-in dialects. -/
def builtIn (entry : Dialect → κ) : List (Registration κ) :=
  [⟨"sqlite", entry .sqlite, []⟩, ⟨"postgres", entry .postgres, ["postgresql", "pgsql"]⟩,
   ⟨"mysql", entry .mysql, ["mariadb"]⟩]

/-- The last registration that lists a name as a further one. -/
def lister? (history : List (Registration κ)) (form : String) : Option (Registration κ) :=
  history.reverse.find? fun x => decide (form ∈ x.forms)

/-- A name that no registration, or last one of the same name, lists as a further one. -/
def Unclaimed (history : List (Registration κ)) (form : String) : Prop :=
  ∀ x, lister? history form = some x → x.form = form

/-- All names of the registrations are unclaimed. -/
def KeepNames (history : List (Registration κ)) : Prop := ∀ x ∈ history, Unclaimed history x.form

instance (history : List (Registration κ)) (form : String) : Decidable (Unclaimed history form) :=
  inferInstanceAs (Decidable (∀ x ∈ lister? history form, x.form = form))

instance (history : List (Registration κ)) : Decidable (KeepNames history) :=
  inferInstanceAs (Decidable (∀ x ∈ history, Unclaimed history x.form))

theorem lister?_concat (history : List (Registration κ)) (x : Registration κ) (form : String) :
    lister? (history ++ [x]) form = if form ∈ x.forms then some x else lister? history form := by
  unfold lister?
  rw [List.reverse_append, List.reverse_singleton, List.singleton_append, List.find?_cons]
  split_ifs with h
  · rw [decide_eq_true h]
  · rw [decide_eq_false h]

end Registration

namespace DialectTable

open Registration

/-- The registry after some registrations. -/
def after (r : DialectTable κ) (done : List (Registration κ)) : DialectTable κ :=
  done.foldl (fun r x => r.register x.name x.entry x.aliases) r

/-- What has been registered with something else in its place. -/
def map (view : κ → ν) (r : DialectTable κ) : DialectTable ν :=
  ⟨r.dialects.map fun entry => (entry.1, view entry.2), r.aliases⟩

/-- The registry that some registrations make. -/
def ofHistory (history : List (Registration κ)) : DialectTable κ :=
  (DialectTable.mk [] []).after history

theorem after_builtIn (entry : Dialect → κ) (done : List (Registration κ)) :
    (builtIn entry).after done = ofHistory (Registration.builtIn entry ++ done) :=
  (List.foldl_append (l := Registration.builtIn entry)).symm

theorem ofHistory_concat (history : List (Registration κ)) (x : Registration κ) :
    ofHistory (history ++ [x]) = (ofHistory history).register x.name x.entry x.aliases :=
  List.foldl_append

/-! What a history of registrations leaves. -/

section History

variable {history : List (Registration κ)}

/-- A further name leads where the last registration that lists it says. -/
theorem get?_aliases (history : List (Registration κ)) (form : String) :
    Assoc.get? form (ofHistory history).aliases =
      (lister? history form).map Registration.form := by
  induction history using List.reverseRecOn with
  | nil => rfl
  | append_singleton history x ih =>
      have hmade : (ofHistory (history ++ [x])).aliases =
          Assoc.merge (ofHistory history).aliases
            (x.forms.map fun key => (key, x.form)) := by
        rw [ofHistory_concat]
        simp only [register, forms, List.map_map]
        rfl
      rw [hmade, Assoc.get?_merge_const, ih, lister?_concat]
      split_ifs <;> rfl

theorem resolve_after (history : List (Registration κ)) (name : String) :
    (ofHistory history).resolve name =
      ((lister? history (nameForm name)).map Registration.form).getD (nameForm name) := by
  rw [resolve, get?_aliases]

theorem mem_targets (r : DialectTable κ) (name : String) :
    name ∈ r.targets ↔ name ∈ r.dialects.map Prod.fst := by
  simp only [targets, List.mem_mergeSort]

/-- The targets are the names that were registered. -/
theorem mem_targets_after (history : List (Registration κ)) (name : String) :
    name ∈ (ofHistory history).targets ↔ ∃ x ∈ history, x.form = name := by
  rw [mem_targets]
  induction history using List.reverseRecOn with
  | nil => simp [ofHistory, after]
  | append_singleton history x ih =>
      have hmade : (ofHistory (history ++ [x])).dialects =
          Assoc.insert x.form x.entry (ofHistory history).dialects := by
        rw [ofHistory_concat]
        rfl
      have hkeys : name ∈ (Assoc.insert x.form x.entry
          (ofHistory history).dialects).map Prod.fst ↔
            name ∈ (ofHistory history).dialects.map Prod.fst ∨ x.form = name := by
        rw [Assoc.map_fst_insert]
        split_ifs with hold
        · exact ⟨.inl, fun h => h.elim id fun heq => heq ▸ hold⟩
        · rw [List.mem_append, List.mem_singleton, eq_comm]
      rw [hmade, hkeys, ih]
      simp only [List.mem_append, List.mem_singleton, or_and_right, exists_or, exists_eq_left]

theorem mem_of_lister? {form : String} {x : Registration κ} (h : lister? history form = some x) :
    x ∈ history :=
  List.mem_reverse.mp (List.mem_of_find?_eq_some h)

/-- A name in the form in which it is compared leads to itself as long as it is unclaimed. -/
theorem resolve_after_eq_self_iff {form : String} (h : nameForm form = form) :
    (ofHistory history).resolve form = form ↔ Unclaimed history form := by
  rw [resolve_after, h, Unclaimed]
  cases lister? history form with
  | none => exact ⟨fun _ => nofun, fun _ => rfl⟩
  | some x => exact ⟨fun heq y hy => Option.some.inj hy ▸ heq, fun hx => hx x rfl⟩

theorem targets_lead_to_themselves_iff (history : List (Registration κ)) :
    (∀ name ∈ (ofHistory history).targets,
      (ofHistory history).resolve name = name) ↔ KeepNames history := by
  simp only [mem_targets_after, KeepNames]
  constructor
  · intro h x hx
    exact (resolve_after_eq_self_iff (nameForm_nameForm x.name)).mp (h x.form ⟨x, hx, rfl⟩)
  · rintro h _ ⟨x, hx, rfl⟩
    exact (resolve_after_eq_self_iff (nameForm_nameForm x.name)).mpr (h x hx)

theorem resolve_resolve (h : KeepNames history) (name : String) :
    (ofHistory history).resolve
        ((ofHistory history).resolve name) =
      (ofHistory history).resolve name := by
  rw [resolve_after history name]
  cases hlister : lister? history (nameForm name) with
  | none =>
      refine (resolve_after_eq_self_iff (nameForm_nameForm name)).mpr fun x hx => ?_
      rw [hlister] at hx
      cases hx
  | some x =>
      exact (resolve_after_eq_self_iff (nameForm_nameForm x.name)).mpr (h x (mem_of_lister? hlister))

end History

/-! What is made of a name. -/

theorem create_eq_ok_iff {r : DialectTable κ} {name : String} {found : κ} :
    r.create name = .ok found ↔ Assoc.get? (r.resolve name) r.dialects = some found := by
  unfold create
  split <;> simp_all

theorem create_register {r : DialectTable κ} {x : Registration κ}
    (h : (r.register x.name x.entry x.aliases).resolve x.name = x.form) :
    (r.register x.name x.entry x.aliases).create x.name = .ok x.entry := by
  rw [create_eq_ok_iff, h]
  exact (Assoc.get?_insert x.form x.form x.entry r.dialects).trans (if_pos rfl)

theorem resolve_map (view : κ → ν) (r : DialectTable κ) (name : String) :
    (r.map view).resolve name = r.resolve name := rfl

theorem create_map (view : κ → ν) (r : DialectTable κ) (name : String) :
    (r.map view).create name = (r.create name).map view := by
  have htargets : (r.map view).targets = r.targets := by
    simp only [targets, map, List.map_map, Function.comp_def]
  have hfound : Assoc.get? ((r.map view).resolve name) (r.map view).dialects =
      (Assoc.get? (r.resolve name) r.dialects).map view :=
    Assoc.get?_map_entries view _ _
  rw [create, create, hfound, htargets]
  cases Assoc.get? (r.resolve name) r.dialects with
  | none => rfl
  | some found => rfl

end DialectTable

/-- The dialect in the configuration is what the name among the options leads to. -/
theorem Config.dialect_of_ofOptions {r : Registry} {options : Dict} {config : Config} {name : String}
    (h : Config.ofOptions r options = .ok config)
    (hname : Dict.get? options "type" = some (.str name)) : config.dialect = r.resolve name := by
  have hdialect : optionOr options "type" "mysql" (dialect? r) = some (r.resolve name) := by
    rw [optionOr, hname]
    rfl
  unfold ofOptions at h
  dsimp only at h
  rw [hdialect] at h
  split_ifs at h with hkeys
  split at h
  · rename_i heq _ _ _ _
    cases h
    exact (Option.some.inj heq).symm
  · cases h

theorem Config.ofOptions_type (r : Registry) (name : String) :
    Config.ofOptions r [(.str "type", .str name)] = .ok ⟨r.resolve name, "", false, 100⟩ := by
  rfl

theorem Database.create_eq_ok_iff {σ τ : Type} {r : Registry} {config : Config}
    {executor : Option (Executor σ τ)} {db : Database σ τ} :
    Database.create r config executor = .ok db ↔
      ∃ dialect, r.create config.dialect = .ok dialect ∧
        db = ⟨config, dialect, executor, Json.usualNesting⟩ ∧
        ¬ (config.logging = true ∧ greatestHistory < config.logSize) := by
  unfold Database.create
  cases r.create config.dialect with
  | error f => exact ⟨nofun, fun ⟨_, h, _⟩ => nomatch h⟩
  | ok dialect =>
      simp only [bind, Except.bind, Bool.and_eq_true, decide_eq_true_eq]
      split_ifs with hsize
      · exact ⟨nofun, fun ⟨_, _, _, hfits⟩ => hfits hsize⟩
      · constructor
        · intro h
          cases h
          exact ⟨dialect, rfl, rfl, hsize⟩
        · rintro ⟨_, h, rfl, -⟩
          cases h
          rfl

/-- A database uses what the registry has for the name among its options, although the name is
resolved twice. -/
theorem Database.create_of_ofOptions {σ τ : Type} {r : Registry} {options : Dict} {config : Config}
    {name : String} (hr : ∀ name, r.resolve (r.resolve name) = r.resolve name)
    (hconfig : Config.ofOptions r options = .ok config)
    (hname : Dict.get? options "type" = some (.str name)) (executor : Option (Executor σ τ))
    (db : Database σ τ) :
    Database.create r config executor = .ok db ↔
      ∃ dialect, r.create name = .ok dialect ∧
        db = ⟨config, dialect, executor, Json.usualNesting⟩ ∧
        ¬ (config.logging = true ∧ greatestHistory < config.logSize) := by
  have hsame : ∀ dialect, r.create config.dialect = .ok dialect ↔ r.create name = .ok dialect := by
    intro dialect
    rw [DialectTable.create_eq_ok_iff, DialectTable.create_eq_ok_iff,
      Config.dialect_of_ofOptions hconfig hname, hr]
  simp only [Database.create_eq_ok_iff, hsame]

namespace DialectTable

open Registration

/-- After any registrations, every registered name leads to itself as long as the names of the
registrations are unclaimed. Then resolving is idempotent, and a database uses what the registry has
for the name among its options. Right after a registration, its name gives what was registered as long
as that name is unclaimed. -/
theorem registered_names_lead_to_themselves (entry : Dialect → κ) (done : List (Registration κ)) :
    let history := Registration.builtIn entry ++ done
    let r := (builtIn entry).after done
    ((∀ name ∈ r.targets, r.resolve name = name) ↔ KeepNames history) ∧
    (KeepNames history →
      (∀ name, r.resolve (r.resolve name) = r.resolve name) ∧
      ∀ (view : κ → Dialect) (options : Dict) (config : Config) (name : String),
        Config.ofOptions (r.map view) options = .ok config →
        Dict.get? options "type" = some (.str name) →
        ∀ {σ τ : Type} (executor : Option (Executor σ τ)) (db : Database σ τ),
          Database.create (r.map view) config executor = .ok db ↔
            ∃ found, r.create name = .ok found ∧
              db = ⟨config, view found, executor, Json.usualNesting⟩ ∧
              ¬ (config.logging = true ∧ Database.greatestHistory < config.logSize)) ∧
    ∀ x : Registration κ, Unclaimed (history ++ [x]) x.form →
      (r.register x.name x.entry x.aliases).create x.name = .ok x.entry := by
  intro history r
  have hr : r = ofHistory history := after_builtIn entry done
  refine ⟨?_, fun hkeep => ⟨?_, ?_⟩, fun x hx => ?_⟩
  · rw [hr]
    exact targets_lead_to_themselves_iff history
  · rw [hr]
    exact resolve_resolve hkeep
  · intro view options config name hconfig hname σ τ executor db
    have hresolve : ∀ name, (r.map view).resolve ((r.map view).resolve name) =
        (r.map view).resolve name := by
      simp only [resolve_map, hr]
      exact resolve_resolve hkeep
    rw [Database.create_of_ofOptions hresolve hconfig hname, create_map]
    cases r.create name with
    | error f => simp [Except.map]
    | ok found => simp [Except.map]
  · refine create_register ?_
    rw [hr, ← ofHistory_concat]
    refine Eq.trans ?_ ((resolve_after_eq_self_iff (nameForm_nameForm x.name)).mpr hx)
    rw [resolve_after, resolve_after, nameForm_nameForm]

/-- A dialect with further names, and a further name that became a dialect listed under itself. -/
theorem registered_names_lead_to_themselves_of_relisted :
    let done : List (Registration Nat) :=
      [⟨" Oracle", 7, ["OracleDB", "PLSQL"]⟩, ⟨"MariaDB", 8, ["mariadb "]⟩]
    let r := (builtIn fun _ => 0).after done
    (∀ name ∈ r.targets, r.resolve name = name) ∧
      r.create "plsql" = .ok 7 ∧ r.create " MARIADB" = .ok 8 ∧
      Database.create (r.map fun _ => .mysql) ⟨"oracle", "", false, 100⟩
        (none : Option (Executor Unit Unit)) =
          .ok ⟨⟨"oracle", "", false, 100⟩, .mysql, none, Json.usualNesting⟩ ∧
      (r.register "mssql" 9 ["oracle"]).create "mssql" = .ok 9 := by
  intro done r
  obtain ⟨hnames, hkept, hlast⟩ := registered_names_lead_to_themselves (fun _ => 0) done
  have hkeep : KeepNames (Registration.builtIn (fun _ => 0) ++ done) := by decide +kernel
  refine ⟨hnames.mpr hkeep, create_eq_ok_iff.mpr (by decide +kernel),
    create_eq_ok_iff.mpr (by decide +kernel), ?_, ?_⟩
  · have hconfig : Config.ofOptions (r.map fun _ => .mysql) [(.str "type", .str "ORACLEdb")] =
        .ok ⟨"oracle", "", false, 100⟩ := by
      have hform : (r.map fun _ => Dialect.mysql).resolve "ORACLEdb" = "oracle" := by decide +kernel
      rw [← hform]
      exact Config.ofOptions_type _ _
    exact ((hkept hkeep).2 (fun _ => .mysql) _ _ "ORACLEdb" hconfig rfl none _).mpr
      ⟨7, create_eq_ok_iff.mpr (by decide +kernel), rfl, by decide⟩
  · exact hlast ⟨"mssql", 9, ["oracle"]⟩ (by decide +kernel)

/-- A dialect that is registered under a further name of another dialect is among the targets, but its
name leads to the other one. -/
theorem further_name_hides_registered_name :
    let r : Registry := Registry.builtIn.register "mariadb" .sqlite []
    "mariadb" ∈ r.targets ∧ r.resolve "mariadb" = "mysql" ∧ r.create "mariadb" = .ok .mysql := by
  refine ⟨(mem_targets _ _).mpr (by decide +kernel), by decide +kernel, ?_⟩
  exact create_eq_ok_iff.mpr (by decide +kernel)

end DialectTable

end QueryLoom
