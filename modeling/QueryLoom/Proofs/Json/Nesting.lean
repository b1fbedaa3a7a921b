import QueryLoom.Proofs.Json.RoundTrip

/-!
Containers inside one another. Reading ends where it would end with more room, or it is given up for
want of room; the latter only if the text has more opening brackets than there is room for. What is left
of a text is always the end of it, so that brackets are not counted twice.
-/

namespace QueryLoom.Json

variable {α β : Type}

/-! Readings with less and with more room. -/

/-- A reading with less room, next to one with more: it is given up, or it ends in the same way. -/
def Narrows (r r' : Except Stop α) : Prop := r = .error (.fault .tooDeep) ∨ r = r'

namespace Narrows

theorem refl (r : Except Stop α) : Narrows r r := .inr rfl

theorem bind {r r' : Except Stop α} {k k' : α → Except Stop β} (h : Narrows r r')
    (hk : ∀ a, Narrows (k a) (k' a)) : Narrows (r >>= k) (r' >>= k') := by
  obtain rfl | rfl := h
  · exact .inl rfl
  · cases r with
    | error stop => exact .refl _
    | ok a => exact hk a

theorem enter {n m : Nat} {k k' : Nat → Except Stop α} (h : n ≤ m)
    (hk : ∀ i j, i ≤ j → Narrows (k i) (k' j)) :
    Narrows (Json.enter n >>= k) (Json.enter m >>= k') := by
  cases n with
  | zero => exact .inl rfl
  | succ i =>
      obtain ⟨j, rfl⟩ := Nat.exists_eq_add_of_le' (Nat.le_trans (Nat.succ_pos i) h)
      exact hk i j (Nat.le_of_succ_le_succ h)

end Narrows

/-- By the steps that are left: the parts of a step are read with one step less. -/
theorem narrows_reading (hook : Hook) (fuel : Nat) :
    ∀ n m, n ≤ m →
      (∀ cs, Narrows (value hook fuel n cs) (value hook fuel m cs)) ∧
      (∀ cs, Narrows (items hook fuel n cs) (items hook fuel m cs)) ∧
      ∀ before cs, Narrows (entries hook fuel n before cs) (entries hook fuel m before cs) := by
  induction fuel with
  | zero => exact fun n m _ => ⟨fun _ => .refl _, fun _ => .refl _, fun _ _ => .refl _⟩
  | succ fuel ih =>
      intro n m hle
      refine ⟨fun cs => ?_, fun cs => ?_, fun before cs => ?_⟩
      · unfold value
        split
        · exact .refl _
        · refine .enter hle fun i j hij => ?_
          obtain ⟨-, -, hentries⟩ := ih i j hij
          dsimp only
          split
          · exact .refl _
          · exact (hentries _ _).bind fun found => .refl _
        · refine .enter hle fun i j hij => ?_
          obtain ⟨-, hitems, -⟩ := ih i j hij
          dsimp only
          split
          · exact .refl _
          · exact (hitems _).bind fun found => .refl _
        · exact .refl _
      · obtain ⟨hvalue, hitems, -⟩ := ih n m hle
        unfold items
        refine (hvalue cs).bind fun found => ?_
        dsimp only
        split
        · exact .refl _
        · exact (hitems _).bind fun more => .refl _
        · exact .refl _
      · obtain ⟨hvalue, -, hentries⟩ := ih n m hle
        unfold entries
        split
        · refine (Narrows.refl _).bind fun name => ?_
          dsimp only
          split
          · refine (hvalue _).bind fun found => ?_
            split
            · exact .refl _
            · exact hentries _ _
            · exact .refl _
          · exact .refl _
        · exact .refl _

/-! What is left of a text. -/

/-- How many containers a text opens at most. -/
def openings (cs : List Char) : Nat := cs.countP fun c => c == '[' || c == '{'

theorem openings_le_of_suffix {rest cs : List Char} (h : rest <:+ cs) :
    openings rest ≤ openings cs :=
  h.sublist.countP_le

theorem skipBlanks_suffix (cs : List Char) : skipBlanks cs <:+ cs := List.dropWhile_suffix _

theorem suffix_of_hexCode? {cs rest : List Char} {code : Nat} (h : hexCode? cs = some (code, rest)) :
    rest <:+ cs := by
  unfold hexCode? at h
  split at h
  · next a b c d e more =>
      simp only [Option.bind_eq_bind, Option.bind_eq_some_iff, Option.pure_def,
        Option.some.injEq, Prod.mk.injEq] at h
      obtain ⟨-, -, -, -, -, -, -, -, -, rfl⟩ := h
      exact List.suffix_append [a, b, c, d] _
  · cases h

theorem suffix_of_unicodeEscape {digits rest : List Char} {code : Nat}
    (h : unicodeEscape digits = .ok (code, rest)) : rest <:+ digits := by
  unfold unicodeEscape at h
  split at h
  · cases h
  · next found hfound =>
      have hfirst := suffix_of_hexCode? hfound
      split at h
      · next more =>
          have hmore : more <:+ digits := (List.suffix_append ['\\', 'u'] more).trans hfirst
          split_ifs at h
          · split at h
            · cases h
            · next hsecond =>
                split_ifs at h
                · obtain ⟨-, rfl⟩ := Prod.mk.inj (Except.ok.inj h)
                  exact (suffix_of_hexCode? hsecond).trans hmore
                · obtain ⟨-, rfl⟩ := Prod.mk.inj (Except.ok.inj h)
                  exact hfirst
          · obtain ⟨-, rfl⟩ := Prod.mk.inj (Except.ok.inj h)
            exact hfirst
      · obtain ⟨-, rfl⟩ := Prod.mk.inj (Except.ok.inj h)
        exact hfirst

/-- What a reading leaves is the end of the text, and it is not given up for want of room unless the text
opens more containers than there is room for. -/
structure Within (nesting : Nat) (cs : List Char) (r : Except Stop (α × List Char)) : Prop where
  left : ∀ a rest, r = .ok (a, rest) → rest <:+ cs
  room : r = .error (.fault .tooDeep) → nesting < openings cs

namespace Within

variable {nesting : Nat} {cs rest : List Char}

theorem pure (a : α) (h : rest <:+ cs) : Within nesting cs (Pure.pure (a, rest)) where
  left b after heq := by
    obtain ⟨-, rfl⟩ := Prod.mk.inj (Except.ok.inj heq)
    exact h
  room heq := by cases heq

theorem stop (issue : Issue) (at' : List Char) :
    Within nesting cs (stopAt issue at' : Except Stop (α × List Char)) where
  left a rest heq := by cases heq
  room heq := by cases heq

/-- A reading of the end of a text. -/
theorem of_suffix {r : Except Stop (α × List Char)} (h : Within nesting rest r) (hrest : rest <:+ cs) :
    Within nesting cs r where
  left a after heq := (h.left a after heq).trans hrest
  room heq := Nat.lt_of_lt_of_le (h.room heq) (openings_le_of_suffix hrest)

theorem bind {r : Except Stop (α × List Char)} {k : α × List Char → Except Stop (β × List Char)}
    (h : Within nesting cs r) (hk : ∀ a rest, Within nesting rest (k (a, rest))) :
    Within nesting cs (r >>= k) := by
  cases r with
  | error stop =>
      refine ⟨nofun, fun heq => h.room ?_⟩
      rw [Except.error.inj heq]
  | ok found => exact (hk found.1 found.2).of_suffix (h.left found.1 found.2 rfl)

/-- A container that is entered takes one of its brackets for the room it needs. -/
theorem enter {c : Char} {k : Nat → Except Stop (α × List Char)} (hc : c = '[' ∨ c = '{')
    (hk : ∀ n, Within n cs (k n)) : Within nesting (c :: cs) (Json.enter nesting >>= k) := by
  have hopens : openings (c :: cs) = openings cs + 1 := by
    rw [openings, List.countP_cons_of_pos (by obtain rfl | rfl := hc <;> rfl), openings]
  cases nesting with
  | zero => exact ⟨nofun, fun _ => by rw [hopens]; exact Nat.succ_pos _⟩
  | succ n =>
      refine ⟨fun a rest heq => ((hk n).left a rest heq).trans (List.suffix_cons c cs), fun heq => ?_⟩
      rw [hopens]
      exact Nat.succ_lt_succ ((hk n).room heq)

end Within

section Parts

variable {nesting : Nat}

theorem within_unicodeEscape (digits : List Char) :
    Within nesting digits (unicodeEscape digits) := by
  refine ⟨fun code rest h => suffix_of_unicodeEscape h, fun h => ?_⟩
  unfold unicodeEscape at h
  repeat' split at h
  all_goals cases h

theorem within_stringRest (opening : List Char) (fuel : Nat) (cs : List Char) :
    Within nesting cs (stringRest opening fuel cs) := by
  induction fuel generalizing cs with
  | zero => exact .stop _ _
  | succ fuel ih =>
      cases cs with
      | nil => exact .stop _ _
      | cons c rest =>
          unfold stringRest
          split_ifs
          · exact .pure _ (List.suffix_cons c rest)
          · refine Within.of_suffix ?_ (List.suffix_cons c rest)
            split
            · exact .stop _ _
            · next digits =>
                refine Within.of_suffix ?_ (List.suffix_cons 'u' digits)
                refine (within_unicodeEscape digits).bind fun code after => ?_
                refine (ih after).bind fun more after => ?_
                exact .pure _ (List.suffix_refl after)
            · next e after _ =>
                refine Within.of_suffix ?_ (List.suffix_cons e after)
                split
                · exact .stop _ _
                · refine (ih after).bind fun more after => ?_
                  exact .pure _ (List.suffix_refl after)
          · exact .stop _ _
          · refine Within.of_suffix ?_ (List.suffix_cons c rest)
            refine (ih rest).bind fun more after => ?_
            exact .pure _ (List.suffix_refl after)

theorem within_string? (opening cs : List Char) : Within nesting cs (string? opening cs) :=
  (within_stringRest opening _ cs).bind fun _ rest => .pure _ (List.suffix_refl rest)

theorem within_number? (cs : List Char) : Within nesting cs (number? cs) := by
  unfold number?
  split
  next negative unsigned hsign =>
    have hunsigned : unsigned <:+ cs := by
      split at hsign
      · next rest =>
          obtain ⟨-, rfl⟩ := Prod.mk.inj hsign
          exact List.suffix_cons _ rest
      · obtain ⟨-, rfl⟩ := Prod.mk.inj hsign
        exact List.suffix_refl cs
    dsimp only
    have hleft : ∀ i j k, ((unsigned.drop i).drop j).drop k <:+ cs := fun i j k =>
      (((List.drop_suffix _ _).trans (List.drop_suffix _ _)).trans
        (List.drop_suffix _ _)).trans hunsigned
    split_ifs
    · exact .stop _ _
    · exact ⟨fun _ _ h => (by cases h), fun h => (by cases h)⟩
    · exact .pure _ (hleft _ _ _)
    · exact .pure _ (hleft _ _ _)
    · split
      · exact .pure _ (hleft _ _ _)
      · exact .stop _ _

theorem within_word? {cs : List Char} {found : Value × List Char} (h : word? cs = some found) :
    found.2 <:+ cs := by
  obtain ⟨entry, -, hentry⟩ := List.exists_of_findSome?_eq_some h
  dsimp only at hentry
  split_ifs at hentry
  rw [← Option.some.inj hentry]
  exact List.drop_suffix _ _

/-- A dictionary that is complete. -/
theorem within_hooked {hook : Hook} (hhook : ∀ es, hook es ≠ .error .tooDeep) (found : Dict)
    (after : List Char) : Within nesting after (match hook found with
      | .ok v => pure (v, after)
      | .error f => .error (.fault f)) := by
  split
  · exact .pure _ (List.suffix_refl after)
  · next f hf =>
      refine ⟨nofun, fun h => ?_⟩
      cases h
      exact absurd hf (hhook found)

end Parts

/-- The readers of values, of items and of entries all read within their texts. -/
structure ReadsWithin (hook : Hook) (fuel : Nat) : Prop where
  value : ∀ n cs, Within n cs (value hook fuel n cs)
  items : ∀ n cs, Within n cs (items hook fuel n cs)
  entries : ∀ n before cs, Within n cs (entries hook fuel n before cs)

namespace ReadsWithin

variable {hook : Hook} {fuel : Nat}

theorem value_step (hhook : ∀ es, hook es ≠ .error .tooDeep) (h : ReadsWithin hook fuel) (n : Nat)
    (cs : List Char) : Within n cs (Json.value hook (fuel + 1) n cs) := by
  unfold Json.value
  split
  · next rest =>
      refine Within.of_suffix ?_ (List.suffix_cons _ rest)
      exact (within_string? _ rest).bind fun _ after => .pure _ (List.suffix_refl after)
  · next rest =>
      refine .enter (.inr rfl) fun i => ?_
      dsimp only
      refine Within.of_suffix ?_ (skipBlanks_suffix rest)
      split
      · next after hafter =>
          rw [hafter]
          exact Within.of_suffix (within_hooked hhook [] after) (List.suffix_cons _ after)
      · exact (h.entries i _ _).bind fun found after => within_hooked hhook found after
  · next rest =>
      refine .enter (.inl rfl) fun i => ?_
      dsimp only
      refine Within.of_suffix ?_ (skipBlanks_suffix rest)
      split
      · next after hafter =>
          rw [hafter]
          exact .pure _ (List.suffix_cons _ after)
      · exact (h.items i _).bind fun _ after => .pure _ (List.suffix_refl after)
  · split
    · next found hfound => exact .pure _ (within_word? hfound)
    · exact within_number? cs

theorem items_step (h : ReadsWithin hook fuel) (n : Nat) (cs : List Char) :
    Within n cs (Json.items hook (fuel + 1) n cs) := by
  unfold Json.items
  refine (h.value n cs).bind fun v rest => ?_
  dsimp only
  refine Within.of_suffix ?_ (skipBlanks_suffix rest)
  split
  · next after hafter =>
      rw [hafter]
      exact .pure _ (List.suffix_cons _ after)
  · next more hmore =>
      rw [hmore]
      refine Within.of_suffix ?_ ((skipBlanks_suffix more).trans (List.suffix_cons _ more))
      exact (h.items n _).bind fun vs after => .pure _ (List.suffix_refl after)
  · exact .stop _ _

theorem entries_step (h : ReadsWithin hook fuel) (n : Nat) (before : Dict) (cs : List Char) :
    Within n cs (Json.entries hook (fuel + 1) n before cs) := by
  unfold Json.entries
  split
  · next rest =>
      refine Within.of_suffix ?_ (List.suffix_cons _ rest)
      refine (within_string? _ rest).bind fun name rest => ?_
      dsimp only
      refine Within.of_suffix ?_ (skipBlanks_suffix rest)
      split
      · next rest hrest =>
          rw [hrest]
          refine Within.of_suffix ?_ ((skipBlanks_suffix rest).trans (List.suffix_cons _ rest))
          refine (h.value n _).bind fun v rest => ?_
          dsimp only
          refine Within.of_suffix ?_ (skipBlanks_suffix rest)
          split
          · next after hafter =>
              rw [hafter]
              exact .pure _ (List.suffix_cons _ after)
          · next more hmore =>
              rw [hmore]
              refine Within.of_suffix ?_ ((skipBlanks_suffix more).trans (List.suffix_cons _ more))
              exact h.entries n _ _
          · exact .stop _ _
      · exact .stop _ _
  · exact .stop _ _

end ReadsWithin

/-- By the steps that are left, for hooks that do not give up themselves. -/
theorem readsWithin {hook : Hook} (hhook : ∀ es, hook es ≠ .error .tooDeep) (fuel : Nat) :
    ReadsWithin hook fuel := by
  induction fuel with
  | zero => exact ⟨fun _ _ => .stop _ _, fun _ _ => .stop _ _, fun _ _ _ => .stop _ _⟩
  | succ fuel ih => exact ⟨ih.value_step hhook, ih.items_step, ih.entries_step⟩

/-! Documents. -/

variable {n m : Nat} {cs : List Char}

theorem narrows_document (hook : Hook) (h : n ≤ m) (cs : List Char) :
    Narrows (document hook n cs) (document hook m cs) :=
  ((narrows_reading hook _ n m h).1 _).bind fun _ => .refl _

theorem openings_of_document {hook : Hook} (hhook : ∀ es, hook es ≠ .error .tooDeep)
    (h : document hook n cs = .error (.fault .tooDeep)) : n < openings cs := by
  have hwithin := ((readsWithin hhook (2 * cs.length + 2)).value n (skipBlanks cs)).of_suffix
    (skipBlanks_suffix cs)
  unfold document at h
  rcases hvalue : value hook (2 * cs.length + 2) n (skipBlanks cs) with stop | ⟨v, rest⟩
  · rw [hvalue] at h hwithin
    exact hwithin.room (congrArg Except.error (Except.error.inj h))
  · rw [hvalue, Except.ok_bind] at h
    dsimp only at h
    split at h <;> cases h

theorem plain_ne_tooDeep (es : Dict) : plain es ≠ .error .tooDeep := nofun

/-- A text is read as with more room, or given up. -/
theorem read_narrows (h : n ≤ m) (text : String) :
    read n text = .error .tooDeep ∨ read n text = read m text := by
  change readWith plain n text = _ ∨ readWith plain n text = readWith plain m text
  unfold readWith
  dsimp only
  split_ifs
  · exact .inr rfl
  · obtain hdeep | hsame := narrows_document plain h text.toList
    · rw [hdeep]
      exact .inl rfl
    · rw [hsame]
      exact .inr rfl

theorem readOctets_narrows (h : n ≤ m) (octets : List UInt8) :
    readOctets n octets = .error .tooDeep ∨ readOctets n octets = readOctets m octets := by
  unfold readOctets
  split
  · next cs _ =>
      obtain hdeep | hsame := narrows_document (fun entries => .ok (.dict entries)) h cs
      · rw [hdeep]
        exact .inl rfl
      · rw [hsame]
        exact .inr rfl
  · exact .inr rfl

/-- A text is given up only if it opens more containers than there is room for. -/
theorem openings_of_read {text : String} (h : read n text = .error .tooDeep) :
    n < openings text.toList := by
  change readWith plain n text = _ at h
  unfold readWith at h
  dsimp only at h
  split_ifs at h
  · cases h
  · split at h
    · cases h
    · next f hf =>
        rw [Except.error.inj h] at hf
        exact openings_of_document plain_ne_tooDeep hf
    · cases h

theorem openings_of_readOctets {octets : List UInt8} (h : readOctets n octets = .error .tooDeep) :
    ∃ cs, Text.decodeDetected (octets.map UInt8.toNat) = some cs ∧ n < openings cs := by
  unfold readOctets at h
  split at h
  · next cs hcs =>
      refine ⟨cs, hcs, ?_⟩
      split at h
      · cases h
      · next f hf =>
          rw [Except.error.inj h] at hf
          exact openings_of_document plain_ne_tooDeep hf
      · cases h
  · cases h

/-! Lists that are never closed. -/

theorem brackets_cons (n more : Nat) :
    List.replicate (n + 1 + more) '[' = '[' :: List.replicate (n + more) '[' := by
  rw [Nat.add_right_comm, List.replicate_succ]

theorem value_brackets {hook : Hook} (n more : Nat) {fuel : Nat} (h : 2 * n + 1 ≤ fuel) :
    value hook fuel n (List.replicate (n + 1 + more) '[') = .error (.fault .tooDeep) := by
  induction n generalizing fuel with
  | zero =>
      obtain ⟨fuel, rfl⟩ := Nat.exists_eq_add_of_le' h
      rw [Nat.zero_add, Nat.add_comm 1 more, List.replicate_succ]
      rfl
  | succ n ih =>
      obtain ⟨fuel, rfl⟩ : ∃ i, fuel = i + 2 := ⟨fuel - 2, by omega⟩
      have hrest : value hook fuel n (List.replicate (n + 1 + more) '[') =
          .error (.fault .tooDeep) := ih (by omega)
      rw [brackets_cons] at hrest
      rw [show n + 1 + 1 + more = n + 1 + (more + 1) by omega, brackets_cons, ← Nat.add_assoc,
        List.replicate_succ]
      change (items hook (fuel + 1) n ('[' :: List.replicate (n + more) '[') >>= _) = _
      unfold items
      rw [hrest]
      rfl

/-- A text of opening brackets only is given up if it has one more than there is room for. -/
theorem read_brackets (n more : Nat) :
    read n (String.ofList (List.replicate (n + 1 + more) '[')) = .error .tooDeep := by
  have hdocument : document plain n (List.replicate (n + 1 + more) '[') =
      .error (.fault .tooDeep) := by
    have hskipped : skipBlanks (List.replicate (n + 1 + more) '[') =
        List.replicate (n + 1 + more) '[' := by
      rw [brackets_cons]
      exact skipBlanks_cons _ rfl
    unfold document
    rw [hskipped, value_brackets n more (by rw [List.length_replicate]; omega)]
    rfl
  have hmark : ((List.replicate (n + 1 + more) '[').head? == some byteOrderMark) = false := by
    rw [brackets_cons]
    rfl
  change readWith plain n _ = _
  unfold readWith
  dsimp only
  rw [String.toList_ofList, hmark, if_neg Bool.false_ne_true, hdocument]

end QueryLoom.Json
