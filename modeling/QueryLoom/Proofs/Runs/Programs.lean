import QueryLoom.Proofs.Runs.Chronicle

/-!
What one thread does with a database, as data. A program makes calls, goes on from their replies,
catches faults and fails; blocks, pipelines and calls that are made in order are programs, too. From a
state, the run of a program makes calls one after another, each in the state that the one before it
left, and the last one leaves the state in which the program ends.
-/

namespace QueryLoom

variable {σ τ κ α β : Type}

/-- What one thread does: it makes calls, goes on from their replies, catches faults and fails. -/
inductive Program (κ : Type) : Type → Type 1
  | pure {α : Type} (a : α) : Program κ α
  | fail {α : Type} (f : Fault) : Program κ α
  | call (c : κ) : Program κ Reply
  | bind {α β : Type} (first : Program κ α) (next : α → Program κ β) : Program κ β
  | attempt {α : Type} (body : Program κ α) : Program κ (Except Fault α)

/-- A call that was made, and the state in which it was made. -/
structure Made (κ σ τ : Type) where
  call : κ
  before : DatabaseState σ τ

namespace Made

variable (act : κ → Action σ τ Reply) (x : Made κ σ τ)

def reply : Except Fault Reply := ((ExceptT.run (act x.call)).run x.before).1

def after : DatabaseState σ τ := ((ExceptT.run (act x.call)).run x.before).2

/-- Calls that are made one after another, from a state to a state. -/
inductive Chain : DatabaseState σ τ → List (Made κ σ τ) → DatabaseState σ τ → Prop
  | nil (s : DatabaseState σ τ) : Chain s [] s
  | cons (x : Made κ σ τ) {rest : List (Made κ σ τ)} {t : DatabaseState σ τ}
      (h : Chain (x.after act) rest t) : Chain x.before (x :: rest) t

namespace Chain

variable {act} {s t u : DatabaseState σ τ} {made more : List (Made κ σ τ)}

theorem append (h : Chain act s made t) (hmore : Chain act t more u) :
    Chain act s (made ++ more) u := by
  induction h with
  | nil => exact hmore
  | cons x h ih => exact .cons x (ih hmore)

theorem of_append (h : Chain act s (made ++ more) u) :
    ∃ t, Chain act s made t ∧ Chain act t more u := by
  induction made generalizing s with
  | nil => exact ⟨s, .nil s, h⟩
  | cons x made ih =>
      cases h with
      | cons _ h =>
          obtain ⟨t, hmade, hmore⟩ := ih h
          exact ⟨t, .cons x hmade, hmore⟩

/-- What every call keeps holds after each call and in the end. -/
theorem keeps {I : DatabaseState σ τ → Prop} (hact : ∀ c, Action.Keeps I (act c))
    (h : Chain act s made t) (hs : I s) : (∀ x ∈ made, I (x.after act)) ∧ I t := by
  induction h with
  | nil s => exact ⟨fun _ hx => absurd hx List.not_mem_nil, hs⟩
  | cons x h ih =>
      have hafter : I (x.after act) := hact x.call x.before hs
      obtain ⟨hrest, hend⟩ := ih hafter
      exact ⟨List.forall_mem_cons.mpr ⟨hafter, hrest⟩, hend⟩

end Chain

end Made

namespace Program

section Run

variable (act : κ → Action σ τ Reply)

def action : {α : Type} → Program κ α → Action σ τ α
  | _, .pure a => Pure.pure a
  | _, .fail f => throw f
  | _, .call c => act c
  | _, .bind first next => action first >>= fun a => action (next a)
  | _, .attempt body => Database.attempt (action body)

/-- How a program ends, and in which state. -/
def run (p : Program κ α) (s : DatabaseState σ τ) : Except Fault α × DatabaseState σ τ :=
  (ExceptT.run (p.action act)).run s

/-- The calls that a program makes from a state. -/
def made : {α : Type} → Program κ α → DatabaseState σ τ → List (Made κ σ τ)
  | _, .pure _, _ => []
  | _, .fail _, _ => []
  | _, .call c, s => [⟨c, s⟩]
  | _, .bind first next, s =>
      made first s ++
        match run act first s with
        | (.ok a, t) => made (next a) t
        | (.error _, _) => []
  | _, .attempt body, s => made body s

variable {act}

theorem run_bind {p : Program κ α} {next : α → Program κ β} {s : DatabaseState σ τ} :
    run act (.bind p next) s =
      match run act p s with
      | (.ok a, t) => run act (next a) t
      | (.error f, t) => (.error f, t) := by
  unfold run
  simp only [action, ExceptT.run_bind, StateT.run_bind]
  rcases (ExceptT.run (p.action act)).run s with ⟨_ | _, t⟩
  · rfl
  · rfl

/-- A run makes its calls one after another, and ends in the state that the last one leaves. -/
theorem chain_made (p : Program κ α) (s : DatabaseState σ τ) :
    Made.Chain act s (made act p s) (run act p s).2 := by
  induction p generalizing s with
  | pure a => exact .nil s
  | fail f => exact .nil s
  | call c => exact .cons ⟨c, s⟩ (.nil _)
  | bind p next ihp ihnext =>
      have hfirst := ihp s
      rw [run_bind, made]
      rcases hrun : run act p s with ⟨_ | a, t⟩
      · rw [hrun] at hfirst
        simpa using hfirst
      · rw [hrun] at hfirst
        exact hfirst.append (ihnext a t)
  | attempt p ih => exact ih s

end Run

/-! Programs that are put together of others. -/

/-- Programs one after another, up to the first failure. -/
def inOrder : List (Program κ α) → Program κ (List α)
  | [] => .pure []
  | first :: rest => .bind first fun a => .bind (inOrder rest) fun more => .pure (a :: more)

/-- The replies of programs one after another. -/
def together (programs : List (Program κ Reply)) : Program κ Reply :=
  .bind (inOrder programs) fun replies => .pure (.list replies)

/-- Stages one after another, each of which is given the reply of the one before it. -/
def pipeline (reply : Reply) : List (Reply → Program κ Reply) → Program κ Reply
  | [] => .pure reply
  | stage :: rest => .bind (stage reply) fun reply => pipeline reply rest

/-- A block between the beginning of a transaction and its end: it is rolled back if its body fails, or
gives a reply that asks for it. -/
def block (boundary : Boundary → κ) (rollsBack : Reply → Bool) (body : Program κ Reply) :
    Program κ Reply :=
  .bind (.call (boundary .begin)) fun _ => .bind (.attempt body) fun ended =>
    match ended with
    | .error f => .bind (.call (boundary .rollback)) fun _ => .fail f
    | .ok reply =>
        .bind (.call (boundary (if rollsBack reply then .rollback else .commit))) fun _ =>
          .pure reply

variable {act : κ → Action σ τ Reply}

theorem action_inOrder (programs : List (Program κ α)) :
    (inOrder programs).action act = Database.inOrder (programs.map (action act)) := by
  induction programs with
  | nil => rfl
  | cons first rest ih =>
      rw [List.map_cons, Database.inOrder, ← ih]
      rfl

theorem action_together (programs : List (Program κ Reply)) :
    (together programs).action act = (do
      let replies ← Database.inOrder (programs.map (action act))
      return .list replies) := by
  rw [← action_inOrder]
  rfl

/-- Calls in order begin with the first of them. -/
theorem made_together_call (c : κ) (rest : List (Program κ Reply)) (s : DatabaseState σ τ) :
    ∃ after, (together (.call c :: rest)).made act s = ⟨c, s⟩ :: after := by
  simp only [together, inOrder, made, List.cons_append, List.nil_append]
  exact ⟨_, rfl⟩

theorem action_pipeline (reply : Reply) (stages : List (Reply → Program κ Reply)) :
    (pipeline reply stages).action act =
      Database.pipeline reply (stages.map fun stage reply => (stage reply).action act) := by
  induction stages generalizing reply with
  | nil => rfl
  | cons stage rest ih =>
      rw [List.map_cons, Database.pipeline]
      exact congrArg ((stage reply).action act >>= ·) (funext fun reply => ih reply)

end Program

/-- What a boundary does on a database. -/
def Boundary.run (db : Database σ τ) : Boundary → Action σ τ Unit
  | .begin => db.begin
  | .commit => db.commit
  | .rollback => db.rollback

/-- A block between the beginning of a transaction and its end. -/
def Database.block (db : Database σ τ) (rollsBack : Reply → Bool) (body : Action σ τ Reply) :
    Action σ τ Reply := do
  db.begin
  match ← Database.attempt body with
  | .error f =>
      db.rollback
      throw f
  | .ok reply =>
      if rollsBack reply then db.rollback else db.commit
      return reply

theorem Database.transaction_eq_block (db : Database σ τ) (body : Action σ τ Reply) :
    db.transaction body = db.block (fun _ => false) body := rfl

theorem Database.action_eq_block (db : Database σ τ) (body : Action σ τ Reply) :
    db.action body = db.block Database.asksRollback body := rfl

/-- A block as a program is the block of what its body does. -/
theorem Program.action_block {db : Database σ τ} {act : κ → Action σ τ Reply}
    {boundary : Boundary → κ} (h : ∀ b, act (boundary b) = Database.quietly (b.run db))
    (rollsBack : Reply → Bool) (body : Program κ Reply) :
    (block boundary rollsBack body).action act = db.block rollsBack (body.action act) := by
  have hquietly : ∀ (b : Boundary) {γ : Type} (k : Action σ τ γ),
      (act (boundary b) >>= fun _ => k) = (b.run db >>= fun _ => k) := by
    intro b γ k
    rw [h, Database.quietly, bind_assoc]
    simp only [pure_bind]
  simp only [block, action, hquietly]
  refine congrArg (db.begin >>= ·) (funext fun _ => ?_)
  refine congrArg (Database.attempt (body.action act) >>= ·) (funext fun ended => ?_)
  cases ended with
  | error f => exact hquietly .rollback _
  | ok reply =>
      dsimp only
      split_ifs
      · exact hquietly .rollback _
      · exact hquietly .commit _

end QueryLoom
