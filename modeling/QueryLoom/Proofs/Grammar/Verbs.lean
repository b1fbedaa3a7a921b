import QueryLoom.Proofs.Grammar.Statements

/-!
Calls of verbs are sentences of the grammar. What a call compiles to is a statement of its verb;
only the selection of one row is written in two parts, a selection and the limit of one behind it.
-/

namespace QueryLoom

open Compile Grammar Statement

variable {r : Rules} {t : Target}

/-! Where-specifications that are completed before they are compiled. -/

namespace Tail

variable {key : String} {entries : Dict} {v : Value}

/-- Of the entries under reserved keys only those of HAVING hold calls. -/
theorem calls_erase (hreserved : key ∈ reservedKeys) (hkey : key ≠ havingKey) (entries : Dict) :
    calls (.dict (Assoc.erase (.str key) entries)) = calls (.dict entries) := by
  rw [calls, calls, conditionEntries_erase hreserved, Dict.getD_erase, if_neg hkey]

theorem calls_withoutLimit (v : Value) : calls (withoutLimit v) = calls v := by
  cases v with
  | dict entries => exact calls_erase (by decide) (by decide) entries
  | _ => rfl

theorem ordersNothing_withoutLimit (v : Value) :
    ordersNothing (withoutLimit v) = ordersNothing v := by
  cases v with
  | dict entries =>
      rw [withoutLimit, ordersNothing, ordersNothing, Dict.getD_erase, if_neg (by decide)]
  | _ => rfl

theorem limitOf_withoutLimit (v : Value) : limitOf (withoutLimit v) = .null := by
  cases v with
  | dict entries =>
      have hentries : limitOf (withoutLimit (.dict entries)) =
          Dict.getD (Assoc.erase (.str limitKey) entries) limitKey := rfl
      rw [hentries, Dict.getD_erase, if_pos rfl]
  | _ => rfl

theorem Fits.withoutLimit (hfree : v.rawFree = true) (h : Fits r t v) :
    Fits r t (withoutLimit v) where
  trusted := .of_rawFree (Value.rawFree_withoutLimit hfree)
  calls := by
    rw [calls_withoutLimit]
    exact h.calls
  order := by
    rw [ordersNothing_withoutLimit]
    exact h.order

/-- A random order has an item, and no calls. -/
theorem Fits.randomOrder {ordered : Value} (hfree : v.rawFree = true) (h : Fits r t v)
    (hordered : Statement.randomOrder t v = .ok ordered) : Fits r t ordered := by
  have htrusted := trusted_randomOrder hfree hordered
  unfold Statement.randomOrder at hordered
  split at hordered
  · cases hordered
  · dsimp only at hordered
    split at hordered
    · rename_i entries _
      cases hordered
      have hkey : (Value.str orderKey == Value.str orderKey) = true := by decide
      refine ⟨htrusted, ?_, ?_⟩
      · rw [← calls_erase (by decide : orderKey ∈ reservedKeys) (by decide), Assoc.erase_insert hkey,
          calls_erase (by decide) (by decide)]
        exact h.calls
      · rw [ordersNothing, Dict.getD_insert_self]
        simp [namesNoOrder]
    · split_ifs at hordered
      cases hordered
      refine ⟨htrusted, fun call hcall => ?_, fun hnothing => by cases hnothing⟩
      have hnone : Tail.calls (.dict [(orderKey, .raw t.dialect.randomFunction [])]) = [] := rfl
      rw [hnone] at hcall
      cases hcall

end Tail

/-! Calls. -/

namespace Verb

/-- Where the where-specification stands among the arguments of a verb. -/
def wheresPosition? : Verb → Option Nat
  | .select | .get | .rand => some 2
  | .has => some 1
  | .aggregate => some 3
  | .update | .replace => some 2
  | .delete => some 1
  | .insert | .raw => none

/-- The where-specification of a call; null if it has none. -/
def wheres (verb : Verb) (args : List Value) : Value :=
  (verb.wheresPosition?.bind fun i => args[i]?).getD .null

theorem rawFree_wheres {verb : Verb} {args : List Value} (h : ∀ v ∈ args, v.rawFree = true) :
    (verb.wheres args).rawFree = true := by
  unfold wheres
  cases hv : verb.wheresPosition?.bind fun i => args[i]? with
  | none => rfl
  | some v =>
      obtain ⟨i, _, hi⟩ := Option.bind_eq_some_iff.mp hv
      exact h v (List.mem_of_getElem? hi)

/-- A where-specification that is not given is null. -/
theorem wheres_bind {verb : Verb} {args values : List Value}
    (h : Signature.bind ⟨verb.parameters, []⟩ args [] = .ok values) :
    verb.wheres values = verb.wheres args := by
  obtain ⟨defaults, hdefaults, rfl⟩ := Signature.bind_eq_append h
  cases hposition : verb.wheresPosition? with
  | none => simp [wheres, hposition]
  | some i =>
      simp only [wheres, hposition, Option.bind_some]
      rw [List.getElem?_append]
      split_ifs with hlt
      · rfl
      · have hlast := congrArg (fun vs => vs[i - args.length]?)
          (Signature.map_some_fillNamed hdefaults)
        have hnull : verb.parameters[i]?.map Parameter.default = some (some .null) := by
          cases verb <;> cases hposition <;> rfl
        simp only [List.getElem?_map, List.getElem?_drop] at hlast
        rw [Nat.add_sub_cancel' (Nat.le_of_not_lt hlt), hnull] at hlast
        rw [List.getElem?_eq_none (Nat.le_of_not_lt hlt)]
        cases hvalue : defaults[i - args.length]? with
        | none => rfl
        | some v =>
            rw [hvalue] at hlast
            simpa using hlast

end Verb

namespace Grammar

/-- What a verb compiles to: a statement, or a selection without a limit before the limit of one. -/
inductive Outcome (r : Rules) (verb : Verb) (c : Compiled) : Prop
  | whole (h : Grammar.Statement r verb c.body) (hlimited : c.limitedToOne = false)
  | single {v : Value} (hverb : verb = .get) (h : Ended r v (From SelectHead) c.body)
      (hv : limitOf v = .null) (hlimited : c.limitedToOne = true)

theorem Outcome.derived {verb : Verb} {c : Compiled} (h : Outcome r verb c) :
    Derived (Grammar.Statement r verb) c.text := by
  cases h with
  | whole h hlimited =>
      rw [Compiled.text, Compiled.sql, if_neg (by simp [hlimited])]
      exact ⟨_, h, rfl⟩
  | single hverb h hv hlimited =>
      rw [Compiled.text, Compiled.sql, if_pos hlimited]
      obtain ⟨sql, hsql, htext⟩ := h.limited hv
      exact ⟨sql, .selection (by simp [hverb]) hsql, htext⟩

end Grammar

namespace Verb

/-- A call without raw values compiles to a sentence. -/
theorem builds_compile (hdialect : r.dialect = t.dialect) {verb : Verb} (hverb : verb ≠ .raw)
    {args : List Value} (hargs : ∀ v ∈ args, v.rawFree = true)
    (hcalls : ∀ call ∈ Tail.calls (verb.wheres args), r.Call call)
    (horder : Tail.ordersNothing (verb.wheres args) = true → r.EmptyOrder) :
    Builds (verb.compile t args) (Outcome r verb) := by
  refine Builds.bind (.lift fun values hvalues => And.intro (rawFree_bind hargs hvalues)
    (wheres_bind hvalues)) fun values hvalues => ?_
  obtain ⟨hfree, hwheres⟩ := hvalues
  rw [← hwheres] at hcalls horder
  have hraw : (verb.wheres values).rawFree = true := rawFree_wheres hfree
  have hfits : Tail.Fits r t (verb.wheres values) := ⟨.of_rawFree hraw, hcalls, horder⟩
  unfold compileWith
  split
  · refine (builds_select hdialect _ _ (hfree _ (by simp)) hfits).mono ?_
    exact fun c hc => .whole (.selection (by simp) hc.1.closed) hc.2
  · have hfits' := hfits.withoutLimit hraw
    refine (builds_select hdialect _ _ (hfree _ (by simp)) hfits').map fun c hc => ?_
    exact .single rfl hc.1 (Tail.limitOf_withoutLimit _) rfl
  · refine Builds.bind (.lift fun ordered hordered =>
      hfits.randomOrder hraw hordered) fun ordered hordered => ?_
    refine (builds_select hdialect _ _ (hfree _ (by simp)) hordered).mono fun c hc => ?_
    exact .whole (.selection (by simp) hc.1.closed) hc.2
  · exact (builds_has hdialect _ _ hfits).mono fun c hc => .whole hc.1 hc.2
  · exact (builds_aggregate hdialect _ _ _ (hfree _ (by simp)) hfits).mono
      fun c hc => .whole hc.1 hc.2
  · exact (builds_insert _ (hfree _ (by simp))).mono fun c hc => .whole hc.1 hc.2
  · exact (builds_update hdialect _ (hfree _ (by simp)) hfits).mono
      fun c hc => .whole (.update (by simp) hc.1) hc.2
  · exact (builds_delete hdialect _ hfits).mono fun c hc => .whole hc.1 hc.2
  · exact (builds_replace hdialect _ _ hfits).mono
      fun c hc => .whole (.update (by simp) hc.1) hc.2
  · exact absurd rfl hverb
  · exact .throw _

end Verb

end QueryLoom
