import Mathlib.Data.List.TakeWhile
import QueryLoom.Proofs.Lexing.Scanner
import QueryLoom.Sql.Dialect
import QueryLoom.Sql.Fragment

/-!
Which placeholders of a fragment are expanded. The splicer of fragments opens and closes quotes
character by character, the scanner of parameters reads quoted texts and comments as a whole. Up to a
placeholder they agree about what is quoted if all quotes are closed there, no comment holds a quote and
no backslash escapes the quote of a quoted text.
-/

namespace QueryLoom

open Text Placeholder Lexer

variable {backslash : Bool} {q : Char} {cs front rest : List Char}

/-! Where the splicer stands. -/

namespace Fragment

/-- The quote that is open after a character. -/
def toggle (quote : Option Char) (c : Char) : Option Char :=
  match quote with
  | some q => if c == q then none else some q
  | none => if isQuote c then some c else none

/-- The quote that is open after a text. -/
def quoteAfter (quote : Option Char) (cs : List Char) : Option Char := cs.foldl toggle quote

theorem quoteAfter_cons (quote : Option Char) (c : Char) (cs : List Char) :
    quoteAfter quote (c :: cs) = quoteAfter (toggle quote c) cs := rfl

theorem quoteAfter_append (quote : Option Char) (cs more : List Char) :
    quoteAfter quote (cs ++ more) = quoteAfter (quoteAfter quote cs) more :=
  List.foldl_append

theorem toggle_self (q : Char) : toggle (some q) q = none := by
  simp [toggle]

theorem toggle_of_ne {c : Char} (h : c ≠ q) : toggle (some q) c = some q := by
  simp [toggle, h]

theorem toggle_quote (h : isQuote q = true) : toggle none q = some q := by
  simp [toggle, h]

theorem quoteAfter_none (h : ∀ c ∈ cs, isQuote c = false) : quoteAfter none cs = none := by
  induction cs with
  | nil => rfl
  | cons c cs ih =>
      rw [List.forall_mem_cons] at h
      rw [quoteAfter_cons, toggle, h.1]
      exact ih h.2

/-- What a part was read from. -/
def Part.source : Part → List Char
  | .verbatim c => [c]
  | .table name | .column name => '<' :: name.toList ++ ['>']
  | .qualified owner name => '<' :: owner.toList ++ '.' :: name.toList ++ ['>']

def Part.isPlaceholder : Part → Bool
  | .verbatim _ => false
  | _ => true

/-- A placeholder is expanded that begins behind some text. -/
def Expands (cs front : List Char) : Prop :=
  ∃ before part after, parts [] none cs = before ++ part :: after ∧
    before.flatMap Part.source = front ∧ part.isPlaceholder = true

/-- A dotted name is read character by character. -/
theorem takePath?_append {path : Key.Path} (h : Key.takePath? cs = some (path, rest)) :
    cs = path.text.toList ++ rest ∧
      ∀ c ∈ path.text.toList, Key.isNameChar c = true ∨ c = '.' := by
  have hnames : ∀ cs : List Char, ∀ c ∈ cs.takeWhile Key.isNameChar,
      Key.isNameChar c = true ∨ c = '.' := fun cs c hc => .inl (List.mem_takeWhile_imp hc)
  have hsplit : ∀ cs : List Char, cs.takeWhile Key.isNameChar ++ cs.dropWhile Key.isNameChar = cs :=
    fun cs => List.takeWhile_append_dropWhile
  unfold Key.takePath? Key.takeName at h
  dsimp only at h
  split at h
  · cases h
  · split at h
    · rename_i more hmore
      split at h
      · cases h
        exact ⟨by simp [Key.Path.text, hsplit], by simpa [Key.Path.text] using hnames cs⟩
      · cases h
        constructor
        · have hwhole := hsplit cs
          rw [hmore, ← hsplit more] at hwhole
          simpa [Key.Path.text] using hwhole.symm
        · simp only [Key.Path.text, String.toList_append, String.toList_ofList, List.mem_append]
          rintro c ((hc | hc) | hc)
          · exact hnames _ c hc
          · exact .inr (by simpa using hc)
          · exact hnames _ c hc
    · cases h
      exact ⟨by simp [Key.Path.text, hsplit], by simpa [Key.Path.text] using hnames cs⟩

theorem ne_of_isNameChar {c d : Char} (hc : Key.isNameChar c = true ∨ c = '.')
    (hd : (Key.isNameChar d || d == '.') = false) : c ≠ d := by
  rintro rfl
  rcases hc with hc | rfl
  · rw [hc] at hd
    cases hd
  · cases hd

theorem takePlaceholder?_append {path : Key.Path} (h : takePlaceholder? cs = some (path, rest)) :
    cs = path.text.toList ++ '>' :: rest ∧
      ∀ c ∈ path.text.toList, Key.isNameChar c = true ∨ c = '.' := by
  unfold takePlaceholder? at h
  split at h
  · rename_i hpath
    cases h
    exact takePath?_append hpath
  · cases h

theorem source_placeholderPart (before : List Char) (path : Key.Path) :
    (placeholderPart before path).source = '<' :: path.text.toList ++ ['>'] := by
  obtain ⟨owner, name⟩ := path
  unfold placeholderPart
  cases owner with
  | some owner => simp [Part.source, Key.Path.text]
  | none =>
      dsimp only
      split
      · rfl
      · rfl

theorem isPlaceholder_placeholderPart (before : List Char) (path : Key.Path) :
    (placeholderPart before path).isPlaceholder = true := by
  unfold placeholderPart
  split
  · rfl
  · split
    · rfl
    · rfl

/-- No bracket that opens a placeholder stands in another placeholder. -/
theorem takePlaceholder?_front {path : Key.Path} {after : List Char}
    (h : takePlaceholder? (front ++ '<' :: rest) = some (path, after)) :
    ∃ front', front = path.text.toList ++ '>' :: front' ∧ after = front' ++ '<' :: rest ∧
      ∀ c ∈ path.text.toList ++ ['>'], isQuote c = false := by
  obtain ⟨hsplit, hchars⟩ := takePlaceholder?_append h
  have hquotes : ∀ c ∈ path.text.toList ++ ['>'], isQuote c = false := by
    intro c hc
    rcases List.mem_append.mp hc with hc | hc
    · have hne : ∀ d, (Key.isNameChar d || d == '.') = false → c ≠ d :=
        fun d hd => ne_of_isNameChar (hchars c hc) hd
      simp only [isQuote, Bool.or_eq_false_iff, beq_eq_false_iff_ne]
      exact ⟨⟨hne _ (by decide), hne _ (by decide)⟩, hne _ (by decide)⟩
    · rw [List.mem_singleton.mp hc]
      rfl
  have hbracket : '<' ∉ path.text.toList ++ ['>'] := by
    intro hmem
    rcases List.mem_append.mp hmem with hmem | hmem
    · exact ne_of_isNameChar (hchars _ hmem) (by decide) rfl
    · cases List.mem_singleton.mp hmem
  rw [List.append_cons path.text.toList] at hsplit
  rcases List.append_eq_append_iff.mp hsplit with ⟨taken, htaken, hafter⟩ | ⟨front', hfront, hafter⟩
  · cases taken with
    | nil => exact ⟨[], by simpa using htaken.symm, hafter.symm, hquotes⟩
    | cons c taken =>
        obtain ⟨rfl, -⟩ := List.cons.inj hafter
        rw [htaken] at hbracket
        simp at hbracket
  · exact ⟨front', by simpa using hfront, hafter, hquotes⟩

/-! The parts of a text, one after the other. -/

theorem parts_placeholder (before : List Char) {path : Key.Path} {after : List Char}
    (h : takePlaceholder? rest = some (path, after)) :
    parts before none ('<' :: rest) = placeholderPart before path :: parts ['>'] none after := by
  rw [parts]
  simp only [show isQuote '<' = false from rfl, Bool.false_eq_true, if_false, beq_self_eq_true,
    if_true]
  split
  · rename_i hsome
    rw [h] at hsome
    cases hsome
    rfl
  · rename_i hnone
    rw [h] at hnone
    cases hnone

/-- A character that begins no placeholder is copied, and may open or close a quote. -/
theorem parts_verbatim (before : List Char) (quote : Option Char) {c : Char}
    (h : quote = none → c = '<' → takePlaceholder? rest = none) :
    parts before quote (c :: rest) =
      .verbatim c :: parts (c :: before) (toggle quote c) rest := by
  cases quote with
  | some q =>
      rw [parts]
      rfl
  | none =>
      rw [parts]
      dsimp only [toggle]
      split_ifs with hquote hbracket
      · rfl
      · split
        · rename_i hsome
          rw [h rfl (by simpa using hbracket)] at hsome
          cases hsome
        · rfl
      · rfl

/-- Up to an angle bracket the splicer reads the text before it, and then the bracket with the quote
that is open there. -/
theorem parts_front (before : List Char) (quote : Option Char) (front rest : List Char) :
    ∃ ps before', parts before quote (front ++ '<' :: rest) =
        ps ++ parts before' (quoteAfter quote front) ('<' :: rest) ∧
      ps.flatMap Part.source = front := by
  -- a placeholder takes several characters of the text before the bracket at once
  induction hlength : front.length using Nat.strong_induction_on generalizing before quote front with
  | _ n ih =>
  cases front with
  | nil => exact ⟨[], before, rfl, rfl⟩
  | cons c front =>
      have hlonger : front.length < n := by
        rw [← hlength]
        exact Nat.lt_succ_self _
      by_cases hplace : quote = none ∧ c = '<' ∧ (takePlaceholder? (front ++ '<' :: rest)).isSome
      · obtain ⟨rfl, rfl, hsome⟩ := hplace
        obtain ⟨⟨path, after⟩, htaken⟩ := Option.isSome_iff_exists.mp hsome
        obtain ⟨front', rfl, rfl, hquotes⟩ := takePlaceholder?_front htaken
        obtain ⟨ps, before', heq, hsource⟩ := ih front'.length
          (by simp only [List.length_append, List.length_cons] at hlonger; omega) ['>'] none front' rfl
        refine ⟨placeholderPart before path :: ps, before', ?_, ?_⟩
        · have hclosed : quoteAfter none ('<' :: (path.text.toList ++ '>' :: front')) =
              quoteAfter none front' := by
            rw [List.append_cons, quoteAfter_cons, quoteAfter_append]
            exact congrArg (quoteAfter · front') (quoteAfter_none hquotes)
          rw [List.cons_append, parts_placeholder before htaken, heq, hclosed]
          rfl
        · rw [List.flatMap_cons, hsource, source_placeholderPart]
          simp
      · obtain ⟨ps, before', heq, hsource⟩ :=
          ih front.length hlonger (c :: before) (toggle quote c) front rfl
        have hverbatim : quote = none → c = '<' → takePlaceholder? (front ++ '<' :: rest) = none := by
          rintro rfl rfl
          simpa using hplace
        refine ⟨.verbatim c :: ps, before', ?_, ?_⟩
        · rw [List.cons_append, parts_verbatim before quote hverbatim, heq]
          rfl
        · rw [List.flatMap_cons, hsource]
          rfl

theorem source_ne_nil (part : Part) : part.source ≠ [] := by
  cases part <;> simp [Part.source]

/-- Parts that were read from the same front of a text are the same. -/
theorem eq_of_source {ps others more rest : List Part} (h : ps ++ more = others ++ rest)
    (hsource : ps.flatMap Part.source = others.flatMap Part.source) : ps = others := by
  have hnil : ∀ middle : List Part, middle.flatMap Part.source = [] → middle = [] := by
    intro middle hmiddle
    rw [List.flatMap_eq_nil_iff] at hmiddle
    exact List.eq_nil_iff_forall_not_mem.mpr fun part hpart => source_ne_nil part (hmiddle part hpart)
  rcases List.append_eq_append_iff.mp h with ⟨middle, rfl, -⟩ | ⟨middle, rfl, -⟩
  · rw [List.flatMap_append, List.self_eq_append_right] at hsource
    rw [hnil middle hsource, List.append_nil]
  · rw [List.flatMap_append, List.append_right_eq_self] at hsource
    rw [hnil middle hsource, List.append_nil]

/-- A placeholder is expanded just if no quote is open before it. -/
theorem expands_iff_quoteAfter (hplaceholder : (takePlaceholder? rest).isSome) :
    Expands (front ++ '<' :: rest) front ↔ quoteAfter none front = none := by
  obtain ⟨ps, before', heq, hsource⟩ := parts_front [] none front rest
  obtain ⟨⟨path, after⟩, htaken⟩ := Option.isSome_iff_exists.mp hplaceholder
  cases hquote : quoteAfter none front with
  | none =>
      rw [hquote, parts_placeholder before' htaken] at heq
      exact ⟨fun _ => rfl, fun _ => ⟨ps, _, _, heq, hsource, isPlaceholder_placeholderPart _ _⟩⟩
  | some q =>
      rw [hquote, parts_verbatim before' (some q) nofun] at heq
      refine ⟨?_, nofun⟩
      rintro ⟨others, part, more, hparts, hothers, hpart⟩
      rw [heq] at hparts
      obtain rfl := eq_of_source hparts (hsource.trans hothers.symm)
      obtain ⟨rfl, -⟩ := List.cons.inj (List.append_cancel_left hparts)
      cases hpart

/-! What the scanner takes for quoted. -/

/-- The rest of a quoted text, as the splicer reads it: closed behind the text, and open before every
character that is not the quote. What it has read may have to satisfy a condition. -/
structure Keeps (q : Char) (condition : List Char → Prop) (cs : List Char) : Prop where
  closed : condition cs → quoteAfter (some q) cs = none
  opened : ∀ a c z, cs = a ++ c :: z → c ≠ q → condition a → quoteAfter (some q) a = some q

theorem Keeps.mono {condition stronger : List Char → Prop}
    (hcondition : ∀ a, stronger a → condition a) (h : Keeps q condition cs) : Keeps q stronger cs where
  closed hc := h.closed (hcondition cs hc)
  opened a c z heq hne hc := h.opened a c z heq hne (hcondition a hc)

theorem Keeps.quote (condition : List Char → Prop) {c : Char} (h : (c == q) = true) :
    Keeps q condition [c] where
  closed _ := by
    rw [beq_iff_eq.mp h]
    exact toggle_self q
  opened a d z heq _ _ := by
    cases a with
    | nil => rfl
    | cons e a => cases a <;> simp at heq

/-- A doubled quote closes the quoted text and opens it again. -/
theorem Keeps.pair {condition : List Char → Prop} (hquote : isQuote q = true)
    (hcondition : ∀ a, condition (q :: q :: a) → condition a) (h : Keeps q condition cs) :
    Keeps q condition (q :: q :: cs) := by
  have htwice : ∀ a, quoteAfter (some q) (q :: q :: a) = quoteAfter (some q) a := fun a => by
    rw [quoteAfter_cons, quoteAfter_cons, toggle_self, toggle_quote hquote]
  refine ⟨fun hc => (htwice cs).trans (h.closed (hcondition cs hc)), ?_⟩
  intro a c z heq hne hc
  match a, heq, hc with
  | [], _, _ => rfl
  | [_], heq, _ =>
      obtain ⟨-, rfl, -⟩ : _ ∧ q = c ∧ _ := by simpa using heq
      exact absurd rfl hne
  | _ :: _ :: a, heq, hc =>
      obtain ⟨rfl, hrest⟩ := List.cons.inj heq
      obtain ⟨rfl, hafter⟩ := List.cons.inj hrest
      exact (htwice a).trans (h.opened a c z hafter hne (hcondition a hc))

/-- A character that is not the quote leaves it open. -/
theorem Keeps.cons {condition later : List Char → Prop} {c : Char}
    (hcondition : ∀ a, condition (c :: a) → c ≠ q ∧ later a) (h : Keeps q later cs) :
    Keeps q condition (c :: cs) := by
  have hopen : ∀ a, condition (c :: a) → quoteAfter (some q) (c :: a) = quoteAfter (some q) a :=
    fun a ha => by rw [quoteAfter_cons, toggle_of_ne (hcondition a ha).1]
  refine ⟨fun hc => (hopen cs hc).trans (h.closed (hcondition cs hc).2), ?_⟩
  intro a d z heq hne hc
  cases a with
  | nil => rfl
  | cons e a =>
      obtain ⟨rfl, hrest⟩ := List.cons.inj heq
      exact (hopen a hc).trans (h.opened a d z hrest hne (hcondition a hc).2)

theorem keeps_closePlain {region : List Char} (h : closePlain q cs = some (region, rest)) :
    Keeps q (fun _ => True) region := by
  fun_induction closePlain q cs generalizing region rest with
  | case1 => cases h
  | case2 c more hc =>
      cases h
      exact Keeps.quote _ hc
  | case3 c more hc ih =>
      obtain ⟨inner, htaken, rfl⟩ := Taken.eq_of_after h
      exact (ih htaken).cons fun _ _ => ⟨by simpa using hc, trivial⟩

theorem keeps_closeDoubled (hquote : isQuote q = true) {region : List Char}
    (h : closeDoubled q cs = some (region, rest)) : Keeps q (fun _ => True) region := by
  fun_induction closeDoubled q cs generalizing region rest with
  | case1 => cases h
  | case2 c hc =>
      cases h
      exact Keeps.quote _ hc
  | case3 => cases h
  | case4 c d more hc hd inner after htaken ih =>
      cases h
      rw [beq_iff_eq] at hc hd
      rw [hc, hd]
      exact (ih htaken).pair hquote fun _ h => h
  | case5 c d more hc =>
      cases h
      exact Keeps.quote _ hc
  | case6 c d more hc =>
      cases h
      exact Keeps.quote _ hc
  | case7 c d more hc ih =>
      obtain ⟨inner, htaken, rfl⟩ := Taken.eq_of_after h
      exact (ih htaken).cons fun _ _ => ⟨by simpa using hc, trivial⟩

/-- Where backslashes escape, the splicer follows as long as none escapes the quote. -/
theorem keeps_closeEscaped (hslash : q ≠ '\\') {region : List Char}
    (h : closeEscaped q cs = some (region, rest)) : Keeps q (q ∉ escapedChars ·) region := by
  fun_induction closeEscaped q cs generalizing region rest with
  | case1 => cases h
  | case2 c hc =>
      cases h
      exact Keeps.quote _ hc
  | case3 => cases h
  | case4 => cases h
  | case5 c d more hc hd ih =>
      obtain ⟨inner, htaken, rfl⟩ := Taken.eq_of_after h
      rw [beq_iff_eq] at hc
      have hfollowing : Keeps q (fun a => q ∉ escapedChars (c :: a)) (d :: inner) :=
        (ih htaken).cons fun a ha => by
          rw [escapedChars, if_pos hc, List.mem_cons, not_or] at ha
          exact ⟨Ne.symm ha.1, ha.2⟩
      exact hfollowing.cons fun a ha => ⟨hc ▸ Ne.symm hslash, ha⟩
  | case6 c d more hc hq =>
      cases h
      exact Keeps.quote _ hq
  | case7 c d more hc hq ih =>
      obtain ⟨inner, htaken, rfl⟩ := Taken.eq_of_after h
      refine (ih htaken).cons fun a ha => ⟨by simpa using hq, ?_⟩
      rwa [escapedChars_of_ne (by simpa using hc)] at ha

end Fragment

namespace Placeholder

open Fragment

/-- The quote that a span stands between, if it is a quoted text. -/
def Span.quote? : Span → Option Char
  | .copied (c :: _ :: _) => if isQuote c then some c else none
  | _ => none

/-- Whether a span is more than a quote without its end. -/
def Span.isClosed : Span → Bool
  | .copied [c] => !isQuote c
  | _ => true

def isComment : List Char → Bool
  | '-' :: '-' :: _ => true
  | '/' :: '*' :: _ => true
  | _ => false

/-- A part of a span that keeps quotes where the splicer expects them: no quote in a comment, and in a
quoted text no quote of its own that a backslash escapes. -/
def Span.Straight (backslash : Bool) (s : Span) (cs : List Char) : Prop :=
  (isComment s.chars = true → ∀ c ∈ cs, isQuote c = false) ∧
    (backslash = true → ∀ q ∈ s.quote?, q ≠ '`' → q ∉ escapedChars cs)

-- the members are gone through, not all characters
instance (backslash : Bool) (s : Span) (cs : List Char) : Decidable (s.Straight backslash cs) :=
  haveI : Decidable (∀ c ∈ cs, isQuote c = false) := List.decidableBAll _ cs
  haveI : Decidable (∀ q ∈ s.quote?, q ≠ '`' → q ∉ escapedChars cs) :=
    Option.decidableForallMem s.quote?
  inferInstanceAs (Decidable (_ ∧ _))

theorem isQuote_of_isWord {c : Char} (h : isWord c = true) : isQuote c = false := by
  simp only [isQuote, Bool.or_eq_false_iff, beq_eq_false_iff_ne]
  refine ⟨⟨?_, ?_⟩, ?_⟩ <;> (rintro rfl; revert h; decide)

/-- How the splicer reads a quoted text without its first quote. -/
def KeepsQuote (backslash : Bool) (q : Char) (cs : List Char) : Prop :=
  Keeps q (fun a => backslash = true → q ≠ '`' → q ∉ escapedChars a) cs

theorem keepsQuote_close (hquote : isQuote q = true) (hback : q ≠ '`') (hslash : q ≠ '\\') {inner : List Char}
    (h : (if backslash then closeEscaped q cs else closeDoubled q cs) = some (inner, rest)) :
    KeepsQuote backslash q inner := by
  cases backslash with
  | true => exact (keeps_closeEscaped hslash h).mono fun a ha => ha rfl hback
  | false => exact (keeps_closeDoubled hquote h).mono fun _ _ => trivial

/-- A region that the scanner copies is a quoted text, a comment, or free of quotes. -/
theorem region?_kind {region : List Char} (h : region? backslash cs = some (region, rest)) :
    (∃ q inner, region = q :: inner ∧ isQuote q = true ∧ KeepsQuote backslash q inner) ∨
      isComment region = true ∨ ∀ c ∈ region, isQuote c = false := by
  unfold region? at h
  split at h
  · obtain ⟨inner, htaken, rfl⟩ := Taken.eq_of_after h
    exact .inl ⟨'"', inner, rfl, rfl, keepsQuote_close rfl (by decide) (by decide) htaken⟩
  · obtain ⟨inner, htaken, rfl⟩ := Taken.eq_of_after h
    exact .inl ⟨'\'', inner, rfl, rfl, keepsQuote_close rfl (by decide) (by decide) htaken⟩
  · obtain ⟨inner, htaken, rfl⟩ := Taken.eq_of_after h
    exact .inl ⟨'`', inner, rfl, rfl, (keeps_closePlain htaken).mono fun _ _ => trivial⟩
  · cases h
    exact .inr (.inl rfl)
  · obtain ⟨inner, -, rfl⟩ := Taken.eq_of_after h
    exact .inr (.inl rfl)
  · split at h
    · rename_i c more hword
      cases h
      refine .inr (.inr ?_)
      simp only [List.forall_mem_cons]
      exact ⟨rfl, rfl, isQuote_of_isWord hword, fun d hd => isQuote_of_isWord (List.mem_takeWhile_imp hd)⟩
    · cases h
  · cases h

theorem name?_plain {name : List Char} (h : name? cs = some (name, rest)) :
    ∀ c ∈ ':' :: name, isQuote c = false := by
  unfold name? at h
  split at h
  · split at h
    · rename_i c more hstart
      cases h
      simp only [List.forall_mem_cons]
      exact ⟨rfl, isQuote_of_isWord (isWord_of_isWordStart hstart),
        fun d hd => isQuote_of_isWord (List.mem_takeWhile_imp hd)⟩
    · cases h
  · cases h

theorem quote?_of_quoted {inner : List Char} (hquote : isQuote q = true) (hinner : inner ≠ []) :
    (Span.copied (q :: inner)).quote? = some q := by
  cases inner with
  | nil => exact absurd rfl hinner
  | cons c inner => exact if_pos hquote

theorem quote?_of_isComment (h : isComment cs = true) : (Span.copied cs).quote? = none := by
  unfold isComment at h
  split at h
  · rfl
  · rfl
  · cases h

theorem quote?_of_plain (h : ∀ c ∈ cs, isQuote c = false) : (Span.copied cs).quote? = none := by
  match cs with
  | [] | [_] => rfl
  | c :: d :: cs =>
      rw [Span.quote?, h c List.mem_cons_self]
      rfl

/-- A closed span of a text is a quoted text, a comment, or free of quotes. -/
theorem span_kind {s : Span} (h : s ∈ spans backslash cs) (hclosed : s.isClosed = true) :
    (∃ q inner, s = .copied (q :: inner) ∧ s.quote? = some q ∧ isQuote q = true ∧
        KeepsQuote backslash q inner) ∨
      s.quote? = none ∧ (isComment s.chars = true ∨ ∀ c ∈ s.chars, isQuote c = false) := by
  fun_induction spans backslash cs with
  | case1 => cases h
  | case2 c rest region after hregion _ ih =>
      rcases List.mem_cons.mp h with rfl | h
      · rcases region?_kind hregion with ⟨q, inner, rfl, hquote, hkeeps⟩ | hcomment | hplain
        · refine .inl ⟨q, inner, rfl, quote?_of_quoted hquote ?_, hquote, hkeeps⟩
          rintro rfl
          simp [Span.isClosed, hquote] at hclosed
        · exact .inr ⟨quote?_of_isComment hcomment, .inl hcomment⟩
        · exact .inr ⟨quote?_of_plain hplain, .inr hplain⟩
      · exact ih h
  | case3 c rest _ name after hname _ ih =>
      rcases List.mem_cons.mp h with rfl | h
      · exact .inr ⟨rfl, .inr (name?_plain hname)⟩
      · exact ih h
  | case4 c rest _ _ ih =>
      rcases List.mem_cons.mp h with rfl | h
      · exact .inr ⟨rfl, .inr (by simpa [Span.chars, Span.isClosed] using hclosed)⟩
      · exact ih h

/-- What a quoted text asks of the part that has been read of it. -/
theorem Span.Straight.notMem_escapedChars {s : Span} {a : List Char} (hspan : s.quote? = some q)
    (hquote : isQuote q = true) (h : s.Straight backslash (q :: a)) :
    backslash = true → q ≠ '`' → q ∉ escapedChars a := by
  intro hback hne
  have hslash : q ≠ '\\' := by
    rintro rfl
    cases hquote
  rw [← escapedChars_of_ne hslash]
  exact h.2 hback q hspan hne

/-- Behind a straight span no quote is open. -/
theorem quoteAfter_span {s : Span} (h : s ∈ spans backslash cs) (hclosed : s.isClosed = true)
    (hstraight : s.Straight backslash s.chars) : quoteAfter none s.chars = none := by
  rcases span_kind h hclosed with ⟨q, inner, rfl, hspan, hquote, hkeeps⟩ | ⟨-, hcomment | hplain⟩
  · rw [Span.chars, quoteAfter_cons, toggle_quote hquote]
    exact hkeeps.closed (hstraight.notMem_escapedChars hspan hquote)
  · exact quoteAfter_none (hstraight.1 hcomment)
  · exact quoteAfter_none hplain

/-- Inside a straight span the quote is open that the span stands between. -/
theorem quoteAfter_front {s : Span} {a z : List Char} (h : s ∈ spans backslash cs)
    (hclosed : s.isClosed = true) (hs : s.chars = a ++ '<' :: z) (hstraight : s.Straight backslash a) :
    quoteAfter none a = s.quote? := by
  rcases span_kind h hclosed with ⟨q, inner, rfl, hspan, hquote, hkeeps⟩ | ⟨hspan, hkind⟩
  · cases a with
    | nil =>
        obtain rfl : q = '<' := (List.cons.inj hs).1
        cases hquote
    | cons c a =>
        obtain ⟨rfl, hinner⟩ := List.cons.inj hs
        have hbracket : '<' ≠ q := by
          rintro rfl
          cases hquote
        rw [hspan, quoteAfter_cons, toggle_quote hquote]
        exact hkeeps.opened a '<' z hinner hbracket (hstraight.notMem_escapedChars hspan hquote)
  · rw [hspan]
    rcases hkind with hcomment | hplain
    · exact quoteAfter_none (hstraight.1 hcomment)
    · rw [hs] at hplain
      exact quoteAfter_none fun c hc => hplain c (List.mem_append_left _ hc)

/-- Behind several straight spans no quote is open. -/
theorem quoteAfter_spans {ss more : List Span} (h : spans backslash cs = ss ++ more)
    (hclosed : ∀ s ∈ spans backslash cs, s.isClosed = true)
    (hstraight : ∀ s ∈ ss, s.Straight backslash s.chars) :
    quoteAfter none (ss.flatMap Span.chars) = none := by
  have hmem : ∀ s ∈ ss, s ∈ spans backslash cs := fun s hs => h ▸ List.mem_append_left _ hs
  clear h
  induction ss with
  | nil => rfl
  | cons s ss ih =>
      rw [List.forall_mem_cons] at hmem hstraight
      rw [List.flatMap_cons, quoteAfter_append,
        quoteAfter_span hmem.1 (hclosed s hmem.1) hstraight.1]
      exact ih hstraight.2 hmem.2

end Placeholder

namespace Fragment

/-- Splicer and scanner agree about what is quoted, at every placeholder up to which the text is
straight. -/
theorem expands_iff_not_quoted (dialect : Dialect) {sql : String} {ss more : List Span} {s : Span}
    {a z : List Char} (hspans : spans dialect.backslashEscapes sql.toList = ss ++ s :: more)
    (hs : s.chars = a ++ '<' :: z)
    (hplaceholder : (takePlaceholder? (z ++ more.flatMap Span.chars)).isSome)
    (hclosed : ∀ t ∈ spans dialect.backslashEscapes sql.toList, t.isClosed = true)
    (hbefore : ∀ t ∈ ss, t.Straight dialect.backslashEscapes t.chars)
    (hfront : s.Straight dialect.backslashEscapes a) :
    Expands sql.toList (ss.flatMap Span.chars ++ a) ↔ s.quote? = none := by
  have hmem : s ∈ spans dialect.backslashEscapes sql.toList := by
    rw [hspans]
    exact List.mem_append_right _ List.mem_cons_self
  have htext : sql.toList =
      (ss.flatMap Span.chars ++ a) ++ '<' :: (z ++ more.flatMap Span.chars) := by
    rw [← chars_spans dialect.backslashEscapes sql.toList, hspans]
    simp [hs]
  rw [htext, expands_iff_quoteAfter hplaceholder, quoteAfter_append,
    quoteAfter_spans hspans hclosed hbefore, quoteAfter_front hmem (hclosed s hmem) hs hfront]

/-- A doubled apostrophe and a comment before a placeholder do not keep it from being expanded. -/
theorem expands_iff_not_quoted_of_literal_and_comment :
    Expands "'it''s' /* a */ <id>".toList "'it''s' /* a */ ".toList := by
  have hspans : spans Dialect.postgres.backslashEscapes "'it''s' /* a */ <id>".toList =
      [.copied "'it''s'".toList, .copied [' '], .copied "/* a */".toList, .copied [' ']] ++
        .copied ['<'] :: [.copied ['i'], .copied ['d'], .copied ['>']] :=
    ((spans_eq_lex_iff (by decide)).mpr (by decide)).trans (by decide)
  have hbracket : (Span.copied ['<']).chars = [] ++ '<' :: [] := rfl
  have hclosed : ∀ t ∈ spans Dialect.postgres.backslashEscapes "'it''s' /* a */ <id>".toList,
      t.isClosed = true := by
    rw [hspans]
    decide
  exact (expands_iff_not_quoted .postgres hspans hbracket rfl hclosed (by decide) (by decide)).mpr rfl

/-- An apostrophe in a comment opens a quote for the splicer only, so that a placeholder behind the
comment is left as it is. -/
theorem apostrophe_in_comment_hides_placeholder :
    let sql := "-- it's\n<id>"
    let before : List Span := [.copied "-- it's".toList, .copied ['\n']]
    let bracket : Span := .copied ['<']
    let more : List Span := [.copied ['i'], .copied ['d'], .copied ['>']]
    spans Dialect.sqlite.backslashEscapes sql.toList = before ++ bracket :: more ∧
      (takePlaceholder? (more.flatMap Span.chars)).isSome ∧
      (∀ t ∈ spans Dialect.sqlite.backslashEscapes sql.toList, t.isClosed = true) ∧
      bracket.quote? = none ∧ ¬ Expands sql.toList (before.flatMap Span.chars) := by
  intro sql before bracket more
  have hterminated : Terminated Dialect.sqlite.backslashEscapes sql.toList := by decide
  have hspans : spans Dialect.sqlite.backslashEscapes sql.toList = before ++ bracket :: more :=
    ((spans_eq_lex_iff hterminated).mpr (by decide)).trans (by decide)
  have hplaceholder : (takePlaceholder? "id>".toList).isSome := rfl
  have htext : sql.toList = before.flatMap Span.chars ++ '<' :: "id>".toList := by decide
  have hquote : quoteAfter none (before.flatMap Span.chars) = some '\'' := rfl
  refine ⟨hspans, rfl, ?_, rfl, ?_⟩
  · rw [hspans]
    decide
  · rw [htext, expands_iff_quoteAfter hplaceholder, hquote]
    nofun

end Fragment

end QueryLoom
