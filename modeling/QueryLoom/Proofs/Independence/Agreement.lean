import QueryLoom.Proofs.Statement.Numbering

/-!
Two runs of compilation. States are alike if they differ in the bound values only. Two steps agree if
from alike states, whenever both succeed, they give related results and leave alike states. Steps that
agree may be put one after the other; a value that is bound is agreed on whatever it is, since only
its name goes on.
-/

namespace QueryLoom

/-- Two states that differ in bound values only. -/
structure Parameters.Alike (s r : Parameters) : Prop where
  stem : s.stem = r.stem
  next : s.next = r.next
  names : s.names = r.names

theorem Parameters.Alike.refl (s : Parameters) : s.Alike s := ⟨rfl, rfl, rfl⟩

namespace Compile

variable {α β γ δ : Type}

/-- From alike states, whenever both steps succeed, the results are related and the states are alike
again. -/
def Agree (R : α → β → Prop) (m : Compile α) (n : Compile β) : Prop :=
  ∀ ⦃s r : Parameters⦄, s.Alike r → ∀ ⦃a : α⦄ ⦃t : Parameters⦄ ⦃b : β⦄ ⦃u : Parameters⦄,
    m.Yields s a t → n.Yields r b u → R a b ∧ t.Alike u

variable {R : α → β → Prop} {S : γ → δ → Prop}

theorem Agree.pure {a : α} {b : β} (h : R a b) : Agree R (pure a) (pure b) := by
  intro s r hs a' t b' u hm hn
  rw [yields_pure] at hm hn
  obtain ⟨rfl, rfl⟩ := hm
  obtain ⟨rfl, rfl⟩ := hn
  exact ⟨h, hs⟩

theorem Agree.throw_left {fault : Fault} {n : Compile β} : Agree R (throw fault) n := by
  intro s r _ a t b u hm _
  simp at hm

theorem Agree.throw_bind {fault : Fault} {k : α → Compile γ} {n : Compile δ} :
    Agree S (throw fault >>= k) n := by
  intro s r _ c t d u hm _
  simp at hm

theorem Agree.throw_bind_right {fault : Fault} {m : Compile γ} {l : β → Compile δ} :
    Agree S m (throw fault >>= l) := by
  intro s r _ c t d u _ hn
  simp at hn

theorem Agree.bind {m : Compile α} {n : Compile β} {k : α → Compile γ} {l : β → Compile δ}
    (h : Agree R m n) (hk : ∀ a b, R a b → Agree S (k a) (l b)) : Agree S (m >>= k) (n >>= l) := by
  intro s r hs c t d u hm hn
  rw [yields_bind] at hm hn
  obtain ⟨a, v, hma, hka⟩ := hm
  obtain ⟨b, w, hnb, hlb⟩ := hn
  obtain ⟨hab, hvw⟩ := h hs hma hnb
  exact hk a b hab hvw hka hlb

/-- Steps that go on from equal results. -/
theorem Agree.bind_eq {m n : Compile α} {k : α → Compile γ} {l : α → Compile δ} (h : Agree Eq m n)
    (hk : ∀ a, Agree S (k a) (l a)) : Agree S (m >>= k) (n >>= l) :=
  h.bind fun a b hab => by
    subst hab
    exact hk a

theorem Agree.lift {x : Except Fault α} {y : Except Fault β}
    (h : ∀ a b, x = .ok a → y = .ok b → R a b) : Agree R (lift x) (lift y) := by
  intro s r hs a t b u hm hn
  rw [yields_lift] at hm hn
  obtain ⟨hx, rfl⟩ := hm
  obtain ⟨hy, rfl⟩ := hn
  exact ⟨h a b hx hy, hs⟩

/-- A step that agrees with itself gives the same result from alike states. -/
abbrev Steady (m : Compile α) : Prop := Agree Eq m m

theorem steady_pure (a : α) : Steady (Pure.pure a : Compile α) := .pure rfl

theorem steady_throw (fault : Fault) : Steady (throw fault : Compile α) := .throw_left

theorem steady_lift (x : Except Fault α) : Steady (Compile.lift x) :=
  .lift fun a b ha hb => by
    rw [ha] at hb
    exact Except.ok.inj hb

theorem steady_bind {m : Compile α} {k : α → Compile γ} (hm : Steady m)
    (hk : ∀ a, Steady (k a)) : Steady (m >>= k) :=
  hm.bind_eq hk

/-- A function of equal results. -/
theorem agree_map {m n : Compile α} (h : Agree Eq m n) (f : α → γ) :
    Agree Eq (do return f (← m)) (do return f (← n)) :=
  h.bind_eq fun _ => steady_pure _

/-- A row that is put before other rows. -/
theorem agree_cons {m n : Compile α} {k l : Compile (List γ)} (h : Agree Eq m n)
    (hrest : Agree Eq k l) (f : α → γ) :
    Agree Eq (do let a ← m; return f a :: (← k)) (do let a ← n; return f a :: (← l)) :=
  h.bind_eq fun _ => agree_map hrest _

/-! Binding. -/

theorem agree_requireText (v w : Value) : Agree Eq (requireText v) (requireText w) :=
  .lift fun _ _ _ _ => rfl

theorem agree_bindName (name : String) (v w : Value) :
    Agree Eq (bindName name v) (bindName name w) := by
  intro s r hs _ t _ u hm hn
  rw [yields_bindName hm, yields_bindName hn]
  refine ⟨rfl, hs.stem, hs.next, ?_⟩
  have hnames : s.bound.map Prod.fst = r.bound.map Prod.fst := hs.names
  simp only [Parameters.names, Assoc.map_fst_insert, hnames]

/-- Adding values, whatever they are, gives the same name. -/
theorem agree_addValue (v w : Value) : Agree Eq (addValue v) (addValue w) := by
  intro s r hs name t other u hm hn
  obtain ⟨rfl, rfl⟩ := yields_addValue hm
  obtain ⟨rfl, rfl⟩ := yields_addValue hn
  refine ⟨?_, hs.stem, ?_, ?_⟩
  · rw [Parameters.numbered, Parameters.numbered, hs.stem, hs.next]
  · change s.next + 1 = r.next + 1
    rw [hs.next]
  · have hnames : s.bound.map Prod.fst = r.bound.map Prod.fst := hs.names
    simp only [Parameters.names, Assoc.map_fst_insert, Parameters.numbered, hs.stem, hs.next,
      hnames]

theorem agree_bindValue (v w : Value) : Agree Eq (bindValue v) (bindValue w) :=
  (agree_addValue v w).bind_eq fun _ => steady_pure _

theorem steady_merge (parameters : Dict) : Steady (merge parameters) := by
  induction parameters with
  | nil => exact steady_pure ()
  | cons entry rest ih =>
      exact (agree_requireText _ _).bind_eq fun _ => (agree_bindName _ _ _).bind_eq fun _ => ih

theorem steady_splice (tablePrefix sql : String) (parameters : Dict) :
    Steady (splice tablePrefix sql parameters) :=
  steady_bind (steady_merge parameters) fun _ => steady_pure _

end Compile

end QueryLoom
