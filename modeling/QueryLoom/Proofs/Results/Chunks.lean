import QueryLoom.Database.Chunks
import QueryLoom.Proofs.Results.Outcome
import QueryLoom.Proofs.Values.Keys

/-!
Results in chunks. Rows that are mapped chunk by chunk, with the parts put together in order, give what
they give when they are mapped at once: the same value, with indexed rows in the same order and under
the same values, or the same fault.
-/

namespace QueryLoom

open Mapping

namespace Except

variable {ε α β γ : Type}

/-- Every item of the result is what some item gives. -/
theorem forall_of_mapM {f : α → Except ε β} {items : List α} {results : List β}
    (h : items.mapM f = .ok results) : ∀ b ∈ results, ∃ a, f a = .ok b := by
  induction items generalizing results with
  | nil =>
      cases h
      simp
  | cons first rest ih =>
      rw [List.mapM_cons] at h
      cases hfirst : f first with
      | error e =>
          rw [hfirst] at h
          cases h
      | ok b =>
          cases hrest : rest.mapM f with
          | error e =>
              rw [hfirst, hrest] at h
              cases h
          | ok more =>
              rw [hfirst, hrest] at h
              cases h
              exact List.forall_mem_cons.mpr ⟨⟨first, hfirst⟩, ih hrest⟩

theorem eq_nil_of_mapM {f : α → Except ε β} {items : List α} (h : items.mapM f = .ok []) :
    items = [] := by
  cases items with
  | nil => rfl
  | cons first rest =>
      rw [List.mapM_cons] at h
      cases hfirst : f first with
      | error e =>
          rw [hfirst] at h
          cases h
      | ok b =>
          cases hrest : rest.mapM f <;> rw [hfirst, hrest] at h <;> cases h

/-- Items that are wrapped and unwrapped again. -/
theorem mapM_map_ok {f : β → Except ε α} {g : α → β} (h : ∀ a, f (g a) = .ok a) (items : List α) :
    (items.map g).mapM f = .ok items := by
  induction items with
  | nil => rfl
  | cons first rest ih =>
      rw [List.map_cons, List.mapM_cons, h, ih]
      rfl

/-- Functions of mapped items. -/
theorem mapM_map (f : α → Except ε β) (g : β → γ) (items : List α) :
    (items.mapM fun a => (f a).map g) = (items.mapM f).map (List.map g) := by
  induction items with
  | nil => rfl
  | cons first rest ih =>
      rw [List.mapM_cons, List.mapM_cons, ih]
      cases f first with
      | error e => rfl
      | ok b =>
          cases rest.mapM f with
          | error e => rfl
          | ok more => rfl

end Except

section Monad

variable {m : Type → Type} [Monad m] [LawfulMonad m] {α β γ : Type}

/-- Steps that are taken chunk by chunk are taken in the order of all items. -/
theorem mapM_flatten (f : α → m β) (chunks : List (List α)) :
    (do return (← chunks.mapM fun chunk : List α => chunk.mapM f).flatten) = chunks.flatten.mapM f := by
  induction chunks with
  | nil => simp
  | cons chunk rest ih =>
      rw [List.mapM_cons, List.flatten_cons, List.mapM_append, ← ih]
      simp only [bind_assoc, pure_bind, List.flatten_cons]

theorem mapM_bind_pure (f : α → m β) (give : β → γ) (items : List α) :
    (items.mapM fun a => do return give (← f a)) = (do return (← items.mapM f).map give) := by
  induction items with
  | nil => simp
  | cons first rest ih =>
      rw [List.mapM_cons, List.mapM_cons, ih]
      simp only [bind_assoc, pure_bind, List.map_cons]

end Monad

namespace Shape

variable {nesting : Nat}

/-- What rows give in the shape of a tree: the values of the rows, or a map of their entries. -/
def rowsValue (nesting : Nat) (tree : ColumnTree) (rows : List Row) : Except Fault Value :=
  match tree with
  | .everything => (rows.mapM fun row => Except.ok (.dict row)).map .list
  | .single _ => (rows.mapM fun row => (run (mapValue nesting tree row)).1).map .list
  | .indexed key _ =>
      (rows.mapM (indexEntry nesting tree (ColumnTree.lastSegment key))).map fun entries =>
        .dict (Assoc.ofList entries)
  | .columns _ => (rows.mapM fun row => (run (mapRow nesting tree row)).1).map .list

theorem endsIn_rowsValue (nesting : Nat) (tree : ColumnTree) (rows : List Row) :
    (mapRows nesting tree rows).EndsIn (rowsValue nesting tree rows) := by
  cases tree with
  | everything =>
      have hrows : (rows.mapM fun row => (.ok (.dict row) : Except Fault Value)) =
          .ok (rows.map .dict) := List.mapM_pure
      rw [rowsValue, hrows]
      exact EndsIn.pure _
  | single ref => exact (endsIn_mapEach (decided_mapValue _) rows).map
  | indexed key children =>
      have hentries : (mapIndexed nesting (.indexed key children) (ColumnTree.lastSegment key) []
          rows).EndsIn _ := endsIn_mapIndexed _ _ _ _
      have hdict := hentries.map (f := Value.dict)
      rw [rowsValue]
      cases hrows : rows.mapM
          (indexEntry nesting (.indexed key children) (ColumnTree.lastSegment key)) <;>
        rw [hrows] at hdict <;> exact hdict
  | columns nodes => exact (endsIn_mapEach (decided_mapRow _) rows).map

theorem joinParts_lists {parts : List (List Value)} (h : parts ≠ []) :
    Database.joinParts (parts.map .list) = .ok (.list parts.flatten) := by
  have hitems : ∀ parts : List (List Value), (parts.map Value.list).mapM (fun part =>
      part.iterate?.elim (.error .wrongKind) .ok : Value → Except Fault (List Value)) =
        .ok parts := Except.mapM_map_ok fun _ => rfl
  cases parts with
  | nil => exact absurd rfl h
  | cons part rest =>
      have hjoined := congrArg (Except.map fun items => Value.list items.flatten)
        (hitems (part :: rest))
      exact hjoined

theorem joinParts_dicts {parts : List Dict} (h : parts ≠ []) :
    Database.joinParts (parts.map .dict) = .ok (.dict (parts.foldl Assoc.merge [])) := by
  have hdicts : ∀ parts : List Dict, (parts.map Value.dict).mapM Value.toDict = .ok parts :=
    Except.mapM_map_ok fun _ => rfl
  cases parts with
  | nil => exact absurd rfl h
  | cons part rest =>
      have hjoined := congrArg (Except.map fun dicts : List Dict =>
        Value.dict (dicts.foldl Assoc.merge [])) (hdicts (part :: rest))
      exact hjoined

/-- Rows are found under values that can be keys. -/
theorem isHashable_of_indexEntry {tree : ColumnTree} {column : String} {row : Row}
    {entry : Value × Value} (h : indexEntry nesting tree column row = .ok entry) :
    entry.1.isHashable = true := by
  unfold indexEntry at h
  cases hobject : (run (mapRow nesting tree row)).1 with
  | error f =>
      rw [hobject] at h
      cases h
  | ok object =>
      rw [hobject] at h
      change (if (Dict.getD row column).isHashable then _ else _) = _ at h
      split_ifs at h with hkey
      · cases h
        exact hkey

theorem joinParts_entries {parts : List (List (Value × Value))} (h : parts ≠ [])
    (hkeys : ∀ part ∈ parts, ∀ e ∈ part, e.1.isHashable = true) :
    Database.joinParts (parts.map fun entries => .dict (Assoc.ofList entries)) =
      .ok (.dict (Assoc.ofList parts.flatten)) := by
  have hmerged : (parts.map Assoc.ofList).foldl Assoc.merge [] = Assoc.ofList parts.flatten :=
    Assoc.foldl_merge_ofList Value.comparable_hashable hkeys (by simp)
  have hne : parts.map Assoc.ofList ≠ [] := by simpa using h
  have hjoined := joinParts_dicts hne
  rw [hmerged, List.map_map] at hjoined
  exact hjoined

/-- Chunks of rows that are mapped one by one and joined, for a way of giving results that goes with
joining. -/
theorem mapM_joinParts {β : Type} {tree : ColumnTree} {f : Row → Mapping β}
    {g : Row → Except Fault β} {give : List β → Value}
    (hrows : ∀ rows, mapRows nesting tree rows = (do return give (← rows.mapM f)))
    (hf : ∀ row, (f row).EndsIn (g row))
    (hjoin : ∀ parts : List (List β), parts ≠ [] →
      (∀ part ∈ parts, ∀ b ∈ part, ∃ row, g row = .ok b) →
      Database.joinParts (parts.map give) = .ok (give parts.flatten))
    {chunks : List (List Row)} (h : chunks ≠ []) :
    (do
      let parts ← chunks.mapM (mapRows nesting tree)
      MonadExcept.ofExcept (Database.joinParts parts)) = mapRows nesting tree chunks.flatten := by
  have hends : (chunks.mapM fun rows : List Row => rows.mapM f).EndsIn
      (chunks.mapM fun rows : List Row => rows.mapM g) :=
    endsIn_mapM (endsIn_mapM hf) _
  have hparts : ∀ parts, (chunks.mapM fun rows : List Row => rows.mapM g) = .ok parts →
      (MonadExcept.ofExcept (Database.joinParts (parts.map give)) : Mapping Value) =
        pure (give parts.flatten) := by
    intro parts hresults
    have hne : parts ≠ [] := by
      rintro rfl
      exact h (Except.eq_nil_of_mapM hresults)
    have hgiven : ∀ part ∈ parts, ∀ b ∈ part, ∃ row, g row = .ok b := by
      intro part hpart
      obtain ⟨rows, hrows⟩ := Except.forall_of_mapM hresults part hpart
      exact Except.forall_of_mapM hrows
    rw [hjoin parts hne hgiven]
    rfl
  rw [hrows, ← mapM_flatten f, funext hrows, mapM_bind_pure (fun rows : List Row => rows.mapM f) give]
  simp only [bind_assoc, pure_bind]
  exact hends.bind_congr hparts

/-- Rows that are mapped chunk by chunk and joined are mapped as at once, also where they are refused,
and leave the same notes. -/
theorem mapM_mapRows (tree : ColumnTree) {chunks : List (List Row)} (h : chunks ≠ []) :
    (do
      let parts ← chunks.mapM (mapRows nesting tree)
      MonadExcept.ofExcept (Database.joinParts parts)) = mapRows nesting tree chunks.flatten := by
  cases tree with
  | everything =>
      have hrows : ∀ rows, mapRows nesting .everything rows =
          (do return .list (← rows.mapM fun row => pure (.dict row))) := by
        intro rows
        rw [List.mapM_pure]
        rfl
      exact mapM_joinParts hrows (fun _ => EndsIn.pure _) (fun _ hparts _ => joinParts_lists hparts) h
  | single ref =>
      have hrows : ∀ rows, mapRows nesting (.single ref) rows =
          (do return .list (← rows.mapM (mapValue nesting (.single ref)))) := by
        intro rows
        rw [mapRows, mapEach_eq]
      exact mapM_joinParts hrows (decided_mapValue _) (fun _ hparts _ => joinParts_lists hparts) h
  | indexed key children =>
      have hrows : ∀ rows, mapRows nesting (.indexed key children) rows =
          (do return .dict (Assoc.ofList (← rows.mapM
            (mapEntry nesting (.indexed key children) (ColumnTree.lastSegment key))))) := by
        intro rows
        rw [mapRows, mapIndexed_eq]
        simp only [bind_assoc, pure_bind, Assoc.ofList, Assoc.merge]
      refine mapM_joinParts hrows (endsIn_mapEntry _ _) (fun parts hparts hentries => ?_) h
      refine joinParts_entries hparts fun part hpart e he => ?_
      obtain ⟨row, hrow⟩ := hentries part hpart e he
      exact isHashable_of_indexEntry hrow
  | columns nodes =>
      have hrows : ∀ rows, mapRows nesting (.columns nodes) rows =
          (do return .list (← rows.mapM (mapRow nesting (.columns nodes)))) := by
        intro rows
        rw [mapRows, mapEach_eq]
      exact mapM_joinParts hrows (decided_mapRow _) (fun _ hparts _ => joinParts_lists hparts) h

theorem endsIn_ofExcept (r : Except Fault Value) : EndsIn (MonadExcept.ofExcept r) r := by
  cases r with
  | error fault => exact EndsIn.throw fault
  | ok v => exact EndsIn.pure v

/-- Rows that are mapped in chunks, with the parts put together, give what they give at once. -/
theorem rowsValue_flatten (tree : ColumnTree) {chunks : List (List Row)} (h : chunks ≠ []) :
    chunks.mapM (rowsValue nesting tree) >>= Database.joinParts = rowsValue nesting tree chunks.flatten := by
  have hjoined := (endsIn_mapM (endsIn_rowsValue nesting tree) chunks).bind fun parts _ =>
    endsIn_ofExcept (Database.joinParts parts)
  have hwhole := endsIn_rowsValue nesting tree chunks.flatten
  rw [← mapM_mapRows tree h] at hwhole
  exact hjoined.run.symm.trans hwhole.run

/-- For every column tree and all rows, cut into chunks in any way: the parts of the chunks, put together
in order, are what all rows give at once, with indexed rows in the same order, under the same keys and
with the same winners, and with the same fault if a row is refused. This holds where each chunk is mapped
on its own, and where the chunks are mapped one after another into one journal. -/
theorem mapRows_chunks_joined (nesting : Nat) (tree : ColumnTree) (first : List Row)
    (rest : List (List Row)) :
    (do
      let parts ← (first :: rest).mapM fun rows => (run (mapRows nesting tree rows)).1
      Database.joinParts parts) = (run (mapRows nesting tree (first ++ rest.flatten))).1 ∧
    (do
      let parts ← (first :: rest).mapM (mapRows nesting tree)
      MonadExcept.ofExcept (Database.joinParts parts)) =
        mapRows nesting tree (first ++ rest.flatten) := by
  have hvalues : (fun rows => (run (mapRows nesting tree rows)).1) = rowsValue nesting tree :=
    funext fun rows => (endsIn_rowsValue nesting tree rows).run
  have hne : first :: rest ≠ [] := List.cons_ne_nil _ _
  rw [hvalues, ← List.flatten_cons, (endsIn_rowsValue nesting tree _).run]
  exact ⟨rowsValue_flatten tree hne, mapM_mapRows tree hne⟩

/-- An index value that comes again in a later chunk keeps its place and its key, and takes the later
object. -/
example :
    let tree : ColumnTree := .indexed "id" [.field ⟨none, "name", none, none⟩]
    let row := fun (id : Value) (name : String) => [(.str "id", id), (.str "name", .str name)]
    (do
      let parts ← [[row (.int 1) "a", row (.int 2) "b"], [row (.bool true) "c"]].mapM fun rows =>
        (run (mapRows 0 tree rows)).1
      Database.joinParts parts) =
      .ok (.dict [(.int 1, .dict [(.str "name", .str "c")]),
        (.int 2, .dict [(.str "name", .str "b")])]) := by
  rfl

end Shape

end QueryLoom
