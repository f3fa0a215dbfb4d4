import Narrative.Proofs.Spelling

/-!
# `Proofs.Blanks` — white space that means nothing

White space may stand anywhere but inside strings, where it belongs to the string, and inside
numerals and words, which it would cut in two. Which places these are is said of the characters
alone, without the lexer: a text is cut into a front and a back at a **seam**, outside strings and
not between two characters of a word.

The lexer takes the same tokens off both sides of a seam, whether there is white space at it or not.
Of a token that starts in front of the seam it is shown that it ends there too. For a string that is
so because its closing quote is in the front, for a numeral because every part of its scanner stops
at the end of the word: the scanners are **local**, and locality is kept by doing one after the
other.

## Contents
- **Seams.** `Spot`, `isWordChar` and `Seam`.
- **Local scanners.** `EndsWord` and `Local`, closed under `Local.bind`, `Local.or` and `Local.onHead`.
- **Numerals and words.** `local_scanNumeral` from its parts, and `local_scanWord`.
- **Strings.** `closedIn_of_after`: a string that is closed in the front ends there.
- **Lexing.** `endsInside_of_after` for one token and `Seam.step` for what is left; the main result
  `all?_seam`.
-/

namespace Narrative
namespace Token

/-! ## Seams -/

/-- The characters that are tokens of their own, or start a string. -/
def isMark (c : Char) : Bool := ['{', '}', '[', ']', ',', ':', '"'].contains c

/-- The characters that make up numerals and words: all but white space and marks. -/
def isWordChar (c : Char) : Bool := !isSpace c && !isMark c

/-- Where a reader may be: between tokens or in one without quotes, in a string, or behind a
backslash in a string. -/
inductive Spot where
  | outside
  | quoted
  | escaped
deriving DecidableEq

namespace Spot

/-- Where a reader is after one more character. -/
def next : Spot → Char → Spot
  | outside, c => if c = '"' then quoted else outside
  | quoted, c => if c = '"' then outside else if c = '\\' then escaped else quoted
  | escaped, _ => quoted

theorem next_outside {c : Char} (hc : c ≠ '"') : outside.next c = outside := if_neg hc

/-- Where a reader is after some more characters. -/
def after (s : Spot) (cs : List Char) : Spot := cs.foldl next s

@[simp] theorem after_nil (s : Spot) : s.after [] = s := rfl

@[simp] theorem after_cons (s : Spot) (c : Char) (cs : List Char) :
    s.after (c :: cs) = (s.next c).after cs :=
  rfl

theorem after_append (s : Spot) (cs ds : List Char) : s.after (cs ++ ds) = (s.after cs).after ds :=
  List.foldl_append

end Spot

/-- A text has a **seam** between a front and a back if that is not in a string, and not between two
characters of a word. -/
structure Seam (front back : List Char) : Prop where
  outside : Spot.outside.after front = .outside
  apart : ∀ a ∈ front.getLast?, ∀ b ∈ back.head?, ¬(isWordChar a = true ∧ isWordChar b = true)

variable {front back w t : List Char} {α β : Type}

theorem isWordChar_of_isSpace {c : Char} (hc : isSpace c = true) : isWordChar c = false := by
  unfold isWordChar
  rw [hc]
  rfl

/-- Where there is a seam, there still is one with white space put in. -/
theorem Seam.space (h : Seam front back) {c : Char} (hc : isSpace c = true) :
    Seam front (c :: back) := by
  refine ⟨h.outside, ?_⟩
  intro a _ b hb hboth
  cases hb
  rw [isWordChar_of_isSpace hc] at hboth
  cases hboth.2

/-- What comes before the last piece of the front does not matter. -/
theorem Seam.of_suffix (h : Seam front back) (hsuffix : w <:+ front)
    (hw : Spot.outside.after w = .outside) :
    Seam w back := by
  refine ⟨hw, ?_⟩
  intro a ha
  apply h.apart
  obtain ⟨v, rfl⟩ := hsuffix
  rw [Option.mem_def] at ha ⊢
  rw [List.getLast?_append, ha]
  rfl

/-! ## Local scanners -/

/-- A text **ends a word** if it does not start with another character of it. -/
def EndsWord (t : List Char) : Prop := ∀ c ∈ t.head?, isWordChar c = false

/-- A scanner is **local** if it does not look past the end of a word: it takes the same off a text,
whatever comes after that end. -/
structure Local (scan : List Char → Option (α × List Char)) : Prop where
  append : ∀ w t, EndsWord t → scan (w ++ t) = (scan w).map fun p => (p.1, p.2 ++ t)
  suffix : ∀ w p, scan w = some p → p.2 <:+ w

namespace Local

variable {scan scan' : List Char → Option (α × List Char)}

theorem pure (a : α) : Local fun cs => some (a, cs) := by
  constructor
  · intro w t _
    rfl
  · intro w p h
    cases h
    exact List.suffix_rfl

theorem bind {f : α → List Char → Option (β × List Char)} (h : Local scan) (hf : ∀ a, Local (f a)) :
    Local fun cs => (scan cs).bind fun p => f p.1 p.2 := by
  constructor
  · intro w t ht
    show (scan (w ++ t)).bind _ = _
    rw [h.append w t ht]
    cases scan w with
    | none => rfl
    | some p => exact (hf p.1).append p.2 t ht
  · intro w q hq
    obtain ⟨p, hp, hq⟩ := Option.bind_eq_some_iff.mp hq
    exact ((hf p.1).suffix p.2 q hq).trans (h.suffix w p hp)

theorem map (f : α → β) (h : Local scan) : Local fun cs => (scan cs).map fun p => (f p.1, p.2) := by
  have hmap : (fun cs => (scan cs).map fun p => (f p.1, p.2)) =
      fun cs => (scan cs).bind fun p => some (f p.1, p.2) := by
    funext cs
    cases scan cs <;> rfl
  rw [hmap]
  exact h.bind fun a => pure (f a)

/-- Of two scanners the second gets its turn where the first finds nothing. -/
theorem or (h : Local scan) (h' : Local scan') : Local fun cs => (scan cs).or (scan' cs) := by
  constructor
  · intro w t ht
    show (scan (w ++ t)).or (scan' (w ++ t)) = ((scan w).or (scan' w)).map _
    rw [h.append w t ht, h'.append w t ht]
    cases scan w <;> rfl
  · intro w p hp
    rcases Option.or_eq_some_iff.mp hp with hp | ⟨_, hp⟩
    · exact h.suffix w p hp
    · exact h'.suffix w p hp

end Local

theorem EndsWord.head_ne (h : EndsWord t) {c : Char} (hc : isWordChar c = true) {cs : List Char} :
    t ≠ c :: cs := by
  rintro rfl
  rw [h c rfl] at hc
  cases hc

/-- Goes on with the first scanner behind the given character, and with the second where there is
another one. -/
def onHead (c : Char) (scan scan' : List Char → Option (α × List Char)) (cs : List Char) :
    Option (α × List Char) :=
  if cs.head? = some c then scan cs.tail else scan' cs

theorem onHead_of_ne {scan scan' : List Char → Option (α × List Char)} {c : Char} {cs : List Char}
    (h : ∀ rest, cs = c :: rest → False) : onHead c scan scan' cs = scan' cs := by
  apply if_neg
  intro hhead
  obtain ⟨rest, hrest⟩ := List.head?_eq_some_iff.mp hhead
  exact h rest hrest

theorem Local.onHead {scan scan' : List Char → Option (α × List Char)} {c : Char}
    (hc : isWordChar c = true) (h : Local scan) (h' : Local scan') : Local (onHead c scan scan') := by
  constructor
  · intro w t ht
    cases w with
    | nil =>
      have hskip : Token.onHead c scan scan' t = scan' t := onHead_of_ne fun _ => ht.head_ne hc
      rw [List.nil_append, hskip, onHead_of_ne fun _ h => by cases h]
      exact h'.append [] t ht
    | cons d w =>
      by_cases hd : d = c
      · subst hd
        show (if some d = some d then scan (w ++ t) else _) =
          (if some d = some d then scan w else _).map _
        rw [if_pos rfl, if_pos rfl]
        exact h.append w t ht
      · have hskip : ∀ cs, Token.onHead c scan scan' (d :: cs) = scan' (d :: cs) := fun cs =>
          onHead_of_ne fun _ h => hd (List.cons.inj h).1
        rw [List.cons_append, hskip, hskip]
        exact h'.append (d :: w) t ht
  · intro w p hp
    unfold Token.onHead at hp
    split at hp
    · exact (h.suffix _ p hp).trans (List.tail_suffix w)
    · exact h'.suffix w p hp

/-! ## Numerals -/

theorem isWordChar_of_isDigit {c : Char} (hc : c.isDigit = true) : isWordChar c = true := by
  cases hword : isWordChar c with
  | true => rfl
  | false =>
    have hlisted : c ∈ [' ', '\t', '\n', '\r', '{', '}', '[', ']', ',', ':', '"'] := by
      simp only [isWordChar, isSpace, isMark] at hword
      grind
    have hnone : [' ', '\t', '\n', '\r', '{', '}', '[', ']', ',', ':', '"'].any Char.isDigit = false :=
      rfl
    exact absurd hc (List.any_eq_false.mp hnone c hlisted)

/-- A run of digits ends where the word does. -/
theorem scanDigits_endsWord (w : List Char) (ht : EndsWord t) :
    scanDigits (w ++ t) = ((scanDigits w).1, (scanDigits w).2 ++ t) := by
  unfold scanDigits
  induction w with
  | nil =>
    cases t with
    | nil => rfl
    | cons c t =>
      have hc : c.isDigit = false := by
        cases hdigit : c.isDigit with
        | false => rfl
        | true => exact absurd rfl (ht.head_ne (isWordChar_of_isDigit hdigit))
      simp [hc]
  | cons c w ih =>
    simp only [Prod.mk.injEq] at ih
    cases hc : c.isDigit <;> simp [hc, ih]

/-- Reads a run of digits that must not be empty. -/
def scanRun (f : List Char → α) (cs : List Char) : Option (α × List Char) :=
  match scanDigits cs with
  | ([], _) => none
  | (ds, rest) => some (f ds, rest)

theorem local_scanRun (f : List Char → α) : Local (scanRun f) := by
  constructor
  · intro w t ht
    unfold scanRun
    rw [scanDigits_endsWord w ht]
    obtain ⟨ds, rest⟩ := scanDigits w
    cases ds <;> rfl
  · intro w p h
    unfold scanRun at h
    split at h
    · cases h
    · next hscan =>
      cases h
      cases hscan
      exact List.dropWhile_suffix _

theorem scanWhole_eq : scanWhole = onHead '0' (fun cs => some (0, cs)) (scanRun digitsValue) := by
  funext cs
  unfold scanWhole
  split
  · rfl
  · next hzero =>
    rw [onHead_of_ne hzero]
    rfl

theorem scanFraction_eq :
    scanFraction = onHead '.' (scanRun (List.map Numeral.digit)) fun cs => some ([], cs) := by
  funext cs
  unfold scanFraction
  split
  · rfl
  · next hpoint => rw [onHead_of_ne hpoint]

theorem scanSigned_eq : scanSigned = onHead '-' (scanRun fun ds => -(digitsValue ds : Int))
    (onHead '+' (scanRun fun ds => (digitsValue ds : Int))
      (scanRun fun ds => (digitsValue ds : Int))) := by
  funext cs
  unfold scanSigned
  split
  · rfl
  · next hminus =>
    rw [onHead_of_ne hminus, onHead]
    by_cases hplus : cs.head? = some '+'
    · rw [if_pos hplus, if_pos hplus]
      rfl
    · rw [if_neg hplus, if_neg hplus]
      rfl

theorem scanExponent_eq :
    scanExponent = onHead 'e' (fun cs => (scanSigned cs).map fun p => (some p.1, p.2))
    (onHead 'E' (fun cs => (scanSigned cs).map fun p => (some p.1, p.2)) fun cs => some (none, cs)) := by
  funext cs
  unfold scanExponent
  split
  · rfl
  · rfl
  · next he hE => rw [onHead_of_ne he, onHead_of_ne hE]

/-- Reads the three parts of a numeral, behind its sign. -/
def scanParts (negative : Bool) (cs : List Char) : Option (Numeral × List Char) :=
  (scanWhole cs).bind fun whole => (scanFraction whole.2).bind fun fraction =>
    (scanExponent fraction.2).bind fun exponent =>
    some (⟨negative, whole.1, fraction.1, exponent.1⟩, exponent.2)

theorem scanNumeral_eq : scanNumeral = onHead '-' (scanParts true) (scanParts false) := by
  funext cs
  unfold scanNumeral onHead
  by_cases hminus : cs.head? = some '-'
  · simp only [hminus, decide_true, if_true]
    rfl
  · simp only [hminus, decide_false, if_false]
    rfl

theorem local_scanParts (negative : Bool) : Local (scanParts negative) := by
  have hwhole : Local scanWhole := scanWhole_eq ▸ .onHead rfl (.pure 0) (local_scanRun _)
  have hfraction : Local scanFraction := scanFraction_eq ▸ .onHead rfl (local_scanRun _) (.pure [])
  have hsigned : Local scanSigned :=
    scanSigned_eq ▸ .onHead rfl (local_scanRun _) (.onHead rfl (local_scanRun _) (local_scanRun _))
  have hexponent : Local scanExponent :=
    scanExponent_eq ▸ .onHead rfl (hsigned.map some) (.onHead rfl (hsigned.map some) (.pure none))
  exact hwhole.bind fun _ => hfraction.bind fun _ => hexponent.bind fun _ => .pure _

/-- **A numeral ends where the word does.** -/
theorem local_scanNumeral : Local scanNumeral := by
  rw [scanNumeral_eq]
  exact .onHead rfl (local_scanParts true) (local_scanParts false)

/-! ## Words -/

/-- Reads a given word. -/
def scanLiteral (v : List Char) (a : α) (cs : List Char) : Option (α × List Char) :=
  if v <+: cs then some (a, cs.drop v.length) else none

theorem prefix_append_iff {v : List Char} (hv : v.all isWordChar = true) (ht : EndsWord t) :
    v <+: w ++ t ↔ v <+: w := by
  constructor
  · rintro ⟨rest, h⟩
    rcases List.append_eq_append_iff.mp h with ⟨v', hw, _⟩ | ⟨v', hv', ht'⟩
    · exact ⟨v', hw.symm⟩
    · -- the word would go on into the text behind it
      cases v' with
      | nil =>
        rw [List.append_nil] at hv'
        exact hv' ▸ List.prefix_rfl
      | cons c v' =>
        have hc : c ∈ v := hv' ▸ List.mem_append_right _ List.mem_cons_self
        exact absurd ht' (ht.head_ne (List.all_eq_true.mp hv c hc))
  · intro h
    exact h.trans (List.prefix_append w t)

theorem local_scanLiteral {v : List Char} (hv : v.all isWordChar = true) (a : α) :
    Local (scanLiteral v a) := by
  constructor
  · intro w t ht
    unfold scanLiteral
    by_cases h : v <+: w
    · rw [if_pos h, if_pos ((prefix_append_iff hv ht).mpr h), List.drop_append_of_le_length h.length_le]
      rfl
    · rw [if_neg h, if_neg fun h' => h ((prefix_append_iff hv ht).mp h')]
      rfl
  · intro w p hp
    unfold scanLiteral at hp
    split at hp
    · cases hp
      exact List.drop_suffix _ w
    · cases hp

theorem scanLiteral_of_ne {v : List Char} {a : α} {cs : List Char} (h : ∀ rest, cs = v ++ rest → False) :
    scanLiteral v a cs = none :=
  if_neg fun ⟨rest, hrest⟩ => h rest hrest.symm

/-- Reads a word or a numeral. -/
def scanWord (cs : List Char) : Option (Token × List Char) :=
  (scanLiteral ['n', 'u', 'l', 'l'] .null cs).or <|
    (scanLiteral ['t', 'r', 'u', 'e'] (.bool true) cs).or <|
    (scanLiteral ['f', 'a', 'l', 's', 'e'] (.bool false) cs).or <| (scanNumeral cs).map fun p =>
      (.number p.1, p.2)

theorem next?_eq_scanWord {c : Char} (hc : isMark c = false) (cs : List Char) :
    next? (c :: cs) = scanWord (c :: cs) := by
  unfold next?
  split
  case h_7 heq | h_8 heq | h_9 heq =>
    rw [heq]
    rfl
  case h_11 hnull htrue hfalse _ =>
    unfold scanWord
    rw [scanLiteral_of_ne hnull, scanLiteral_of_ne htrue, scanLiteral_of_ne hfalse]
    rfl
  all_goals
    next heq =>
      rw [(List.cons.inj heq).1] at hc
      cases hc

/-- **A word ends where its characters do**, and so does a numeral. -/
theorem local_scanWord : Local scanWord :=
  .or (local_scanLiteral rfl _) <| .or (local_scanLiteral rfl _) <| .or (local_scanLiteral rfl _) <|
    local_scanNumeral.map Token.number

/-! ## Strings -/

/-- A string that is closed has a quote in it. -/
theorem quote_mem_of_after {cs : List Char} :
    ∀ s, s ≠ .outside → Spot.after s cs = .outside → '"' ∈ cs := by
  induction cs with
  | nil => exact fun s hs h => absurd h hs
  | cons c cs ih =>
    intro s hs h
    by_cases hc : c = '"'
    · exact hc ▸ List.mem_cons_self
    · refine List.mem_cons_of_mem _ (ih (s.next c) ?_ h)
      cases s with
      | outside => exact absurd rfl hs
      | quoted =>
        simp only [Spot.next, hc, if_false]
        split <;> exact fun h => nomatch h
      | escaped => exact fun h => nomatch h

/-- Four hexadecimal digits do not close a string. -/
theorem codeUnit?_of_quote {a b c d : Char} (h : '"' ∈ [a, b, c, d]) : codeUnit? a b c d = none := by
  have hquote : hexDigit? '"' = none := rfl
  unfold codeUnit?
  simp only [List.mem_cons, List.not_mem_nil, or_false] at h
  rcases h with rfl | rfl | rfl | rfl
  · rw [hquote]; rfl
  · rw [hquote]; cases hexDigit? a <;> rfl
  · rw [hquote]; cases hexDigit? a <;> cases hexDigit? b <;> rfl
  · rw [hquote]; cases hexDigit? a <;> cases hexDigit? b <;> cases hexDigit? c <;> rfl

theorem next_of_hexDigit {c : Char} {n : Nat} (h : hexDigit? c = some n) :
    Spot.quoted.next c = .quoted := by
  have hquote : c ≠ '"' := by
    rintro rfl
    cases h
  have hback : c ≠ '\\' := by
    rintro rfl
    cases h
  simp only [Spot.next, hquote, hback, if_false]

theorem after_codeUnit {a b c d : Char} {n : Nat} (h : codeUnit? a b c d = some n) (rest : List Char) :
    Spot.quoted.after (a :: b :: c :: d :: rest) = Spot.quoted.after rest := by
  obtain ⟨_, ha, h⟩ := Option.bind_eq_some_iff.mp h
  obtain ⟨_, hb, h⟩ := Option.bind_eq_some_iff.mp h
  obtain ⟨_, hc, h⟩ := Option.bind_eq_some_iff.mp h
  obtain ⟨_, hd, _⟩ := Option.bind_eq_some_iff.mp h
  simp only [Spot.after_cons, next_of_hexDigit ha, next_of_hexDigit hb, next_of_hexDigit hc,
    next_of_hexDigit hd]

theorem scanString_unit (a b c d : Char) (rest : List Char) :
    scanString ('\\' :: 'u' :: a :: b :: c :: d :: rest) =
    (codeUnit? a b c d).bind fun n => (scanString rest).map fun p => (.unit n :: p.1, p.2) := by
  rw [scanString]
  cases codeUnit? a b c d with
  | none => rfl
  | some n => cases scanString rest <;> rfl

theorem scanString_unit_of_quote {cs : List Char} (h : '"' ∈ cs.take 4) :
    scanString ('\\' :: 'u' :: cs) = none := by
  by_cases hlong : ∃ a b c d rest, cs = a :: b :: c :: d :: rest
  · obtain ⟨a, b, c, d, rest, rfl⟩ := hlong
    rw [scanString_unit, codeUnit?_of_quote h]
    rfl
  · rw [scanString]
    · rfl
    · exact fun a b c d rest _ hcs => hlong ⟨a, b, c, d, rest, hcs⟩

/-- A backslash before a character that is no escape spoils the string. -/
theorem scanString_of_no_escape {e : Char} (hu : e ≠ 'u') (he : shortEscape? e = none)
    (rest : List Char) : scanString ('\\' :: e :: rest) = none := by
  rw [scanString, he]
  · rfl
  · exact fun _ _ _ _ _ h => absurd h hu

/-- So does a control character. -/
theorem scanString_of_control {c : Char} (hquote : c ≠ '"') (hback : c ≠ '\\') (hlow : c.toNat < 0x20)
    (rest : List Char) : scanString (c :: rest) = none := by
  rw [scanString, if_pos (by rw [decide_eq_true hlow, Bool.true_or])]
  · exact hquote
  · exact fun _ _ _ _ _ h => absurd h hback
  · exact fun _ _ h => absurd h hback

/-- What follows a front does not matter to a string that is open where the front starts: either it
ends in the front, with what is left there outside of it, or it is no string. -/
def ClosedIn (front : List Char) : Prop := ∃ o : Option (List Piece × List Char),
  (∀ p ∈ o, p.2 <:+ front ∧ Spot.outside.after p.2 = .outside) ∧
    ∀ x, scanString (front ++ x) = o.map fun p => (p.1, p.2 ++ x)

theorem closedIn_of_none (h : ∀ x, scanString (front ++ x) = none) : ClosedIn front :=
  ⟨none, fun _ hp => (nomatch hp), h⟩

/-- One piece more at the start. -/
theorem ClosedIn.cons {rest : List Char} {q : Piece} (h : ClosedIn rest) (hsuffix : rest <:+ front)
    (hscan : ∀ x, scanString (front ++ x) = (scanString (rest ++ x)).map fun p => (q :: p.1, p.2)) :
    ClosedIn front := by
  obtain ⟨o, ho, hrest⟩ := h
  refine ⟨o.map fun p => (q :: p.1, p.2), ?_, ?_⟩
  · intro p hp
    obtain ⟨p', hp', rfl⟩ := Option.map_eq_some_iff.mp hp
    exact ⟨(ho p' hp').1.trans hsuffix, (ho p' hp').2⟩
  · intro x
    rw [hscan, hrest, Option.map_map, Option.map_map]
    rfl

/-- At its closing quote a string ends, and what is left has to be outside of strings. -/
theorem closedIn_quote {rest : List Char} (h : Spot.outside.after rest = .outside) :
    ClosedIn ('"' :: rest) := by
  refine ⟨some ([], rest), ?_, ?_⟩
  · intro p hp
    cases hp
    exact ⟨List.suffix_cons _ _, h⟩
  · intro x
    rw [List.cons_append, scanString]
    rfl

theorem closedIn_unit {a b c d : Char} {rest : List Char}
    (h : ∀ n, codeUnit? a b c d = some n → ClosedIn rest) :
    ClosedIn ('\\' :: 'u' :: a :: b :: c :: d :: rest) := by
  cases hunit : codeUnit? a b c d with
  | none =>
    apply closedIn_of_none
    intro x
    show scanString ('\\' :: 'u' :: a :: b :: c :: d :: (rest ++ x)) = none
    rw [scanString_unit, hunit]
    rfl
  | some n =>
    have hsuffix : rest <:+ '\\' :: 'u' :: a :: b :: c :: d :: rest := ⟨['\\', 'u', a, b, c, d], rfl⟩
    apply (h n hunit).cons (q := .unit n) hsuffix
    intro x
    show scanString ('\\' :: 'u' :: a :: b :: c :: d :: (rest ++ x)) = _
    rw [scanString_unit, hunit]
    rfl

/-- Where fewer than four characters are left after `\u` and a quote is among them, no code unit can be
completed from what follows. -/
theorem closedIn_short_unit {rest : List Char} (hlength : rest.length < 4) (hquote : '"' ∈ rest) :
    ClosedIn ('\\' :: 'u' :: rest) := by
  apply closedIn_of_none
  intro x
  apply scanString_unit_of_quote
  show '"' ∈ (rest ++ x).take 4
  rw [List.take_append, List.take_of_length_le (by omega)]
  exact List.mem_append_left _ hquote

/-- **A string that is closed in the front ends there.** -/
theorem closedIn_of_after (h : Spot.quoted.after front = .outside) : ClosedIn front := by
  induction front using scanString.induct with
  | case1 => cases h
  | case2 rest => exact closedIn_quote h
  | case3 a b c d rest ih =>
    exact closedIn_unit fun n hunit => ih ((after_codeUnit hunit rest).symm.trans h)
  | case4 e rest hshort ih =>
    have hrest : Spot.quoted.after rest = .outside := h
    by_cases hu : e = 'u'
    · subst hu
      have hlength : rest.length < 4 := by
        rcases rest with _ | ⟨a, _ | ⟨b, _ | ⟨c, _ | ⟨d, rest⟩⟩⟩⟩
        case cons.cons.cons.cons => exact (hshort a b c d rest rfl rfl).elim
        all_goals exact of_decide_eq_true rfl
      exact closedIn_short_unit hlength (quote_mem_of_after .quoted (by decide) hrest)
    · cases he : shortEscape? e with
      | none => exact closedIn_of_none fun x => scanString_of_no_escape hu he (rest ++ x)
      | some c => exact (ih hrest).cons ⟨['\\', e], rfl⟩ fun x => scanString_letter he (rest ++ x)
  | case5 c rest hquote _ hback hbad =>
    have hsolid : c ≠ '\\' := by
      rintro rfl
      cases rest with
      | nil => cases h
      | cons d rest => exact hback d rest rfl rfl
    have hlow : c.toNat < 0x20 := by simpa [hsolid] using hbad
    exact closedIn_of_none fun x => scanString_of_control hquote hsolid hlow (rest ++ x)
  | case6 c rest hquote _ _ hgood ih =>
    have hlow : ¬c.toNat < 0x20 := fun hlow => hgood (by rw [decide_eq_true hlow]; rfl)
    have hsolid : c ≠ '\\' := fun hc => hgood (by rw [decide_eq_true hc, Bool.or_true])
    have hrest : Spot.quoted.after rest = .outside := by
      rw [Spot.after_cons, Spot.next, if_neg hquote, if_neg hsolid] at h
      exact h
    exact (ih hrest).cons (List.suffix_cons c rest) fun x =>
      scanString_plain hquote hsolid hlow (rest ++ x)

/-! ## Lexing -/

/-- A mark that is no quote is a token by itself. -/
theorem next?_mark {c : Char} (hmark : isMark c = true) (hquote : c ≠ '"') :
    ∃ t, ∀ cs, next? (c :: cs) = some (t, cs) := by
  simp only [isMark, List.contains_cons, List.contains_nil, Bool.or_false, Bool.or_eq_true,
    beq_iff_eq] at hmark
  rcases hmark with rfl | rfl | rfl | rfl | rfl | rfl | rfl
  case inr.inr.inr.inr.inr.inr => exact absurd rfl hquote
  all_goals exact ⟨_, fun cs => rfl⟩

theorem after_word (hw : ∀ c ∈ w, isWordChar c = true) : Spot.outside.after w = .outside := by
  induction w with
  | nil => rfl
  | cons c w ih =>
    have hquote : c ≠ '"' := by
      rintro rfl
      exact absurd (hw '"' List.mem_cons_self) (by decide)
    rw [Spot.after_cons, Spot.next_outside hquote]
    exact ih fun d hd => hw d (List.mem_cons_of_mem _ hd)

theorem isWordChar_of_mem_takeWhile {c : Char} (hc : c ∈ front.takeWhile isWordChar) :
    isWordChar c = true :=
  List.all_eq_true.mp List.all_takeWhile c hc

/-- What is behind the first word of a front ends that word, if the front is followed by a seam. -/
theorem endsWord_dropWhile {c : Char} {x : List Char} (h : Seam (c :: front) x) :
    EndsWord ((c :: front).dropWhile isWordChar ++ x) := by
  intro b hb
  cases hrest : (c :: front).dropWhile isWordChar with
  | cons a rest =>
    have ha := List.head?_dropWhile_not isWordChar (c :: front)
    rw [hrest] at hb ha
    cases hb
    exact ha
  | nil =>
    -- the front is one word, so that it is the seam that ends it
    rw [hrest] at hb
    have hfront : (c :: front).takeWhile isWordChar = c :: front := by
      have hsplit := List.takeWhile_append_dropWhile (p := isWordChar) (l := c :: front)
      rwa [hrest, List.append_nil] at hsplit
    have hlast : isWordChar ((c :: front).getLast (List.cons_ne_nil c front)) = true := by
      apply isWordChar_of_mem_takeWhile
      rw [hfront]
      exact List.getLast_mem _
    cases hword : isWordChar b with
    | false => rfl
    | true => exact absurd ⟨hlast, hword⟩ (h.apart _ (List.getLast?_eq_some_getLast _) b hb)

/-- A token that starts a front **ends inside** it if it ends at a place outside of strings, or is
none, and what follows the front does not matter to that as long as there is a seam. -/
def EndsInside (front : List Char) : Prop := ∃ o : Option (Token × List Char),
  (∀ p ∈ o, p.2 <:+ front ∧ Spot.outside.after p.2 = .outside) ∧
    ∀ x, Seam front x → next? (front ++ x) = o.map fun p => (p.1, p.2 ++ x)

theorem endsInside_string (h : Spot.quoted.after front = .outside) : EndsInside ('"' :: front) := by
  obtain ⟨o, ho, hscan⟩ : ClosedIn front := closedIn_of_after h
  refine ⟨o.map fun p => (.string ((joinUnits p.1).map String.ofList), p.2), ?_, ?_⟩
  · intro p hp
    obtain ⟨p', hp', rfl⟩ := Option.map_eq_some_iff.mp hp
    exact ⟨(ho p' hp').1.trans (List.suffix_cons _ _), (ho p' hp').2⟩
  · intro x _
    rw [List.cons_append, next?, hscan x]
    cases o <;> rfl

theorem endsInside_mark {c : Char} (hmark : isMark c = true) (hquote : c ≠ '"')
    (h : Spot.outside.after (c :: front) = .outside) : EndsInside (c :: front) := by
  obtain ⟨t, ht⟩ := next?_mark hmark hquote
  rw [Spot.after_cons, Spot.next_outside hquote] at h
  refine ⟨some (t, front), ?_, ?_⟩
  · intro p hp
    cases hp
    exact ⟨List.suffix_cons _ _, h⟩
  · intro x _
    exact ht (front ++ x)

/-- Of a word the scanner is given all characters, and finds the rest of the front behind them. -/
theorem endsInside_word {c : Char} (hmark : isMark c = false)
    (h : Spot.outside.after (c :: front) = .outside) :
    EndsInside (c :: front) := by
  obtain ⟨w, v, hw, hv⟩ :
    ∃ w v, (c :: front).takeWhile isWordChar = w ∧ (c :: front).dropWhile isWordChar = v :=
    ⟨_, _, rfl, rfl⟩
  have hsplit : w ++ v = c :: front := hw ▸ hv ▸ List.takeWhile_append_dropWhile
  have hword : ∀ d ∈ w, isWordChar d = true := fun d hd => isWordChar_of_mem_takeWhile (hw.symm ▸ hd)
  have hrest : Spot.outside.after v = .outside := by
    rw [← hsplit, Spot.after_append, after_word hword] at h
    exact h
  refine ⟨(scanWord w).map fun p => (p.1, p.2 ++ v), ?_, ?_⟩
  · intro p hp
    obtain ⟨p', hp', rfl⟩ := Option.map_eq_some_iff.mp hp
    obtain ⟨u, hu⟩ : p'.2 <:+ w := local_scanWord.suffix w p' hp'
    refine ⟨⟨u, by rw [← hsplit, ← hu, List.append_assoc]⟩, ?_⟩
    rw [Spot.after_append, after_word fun d hd => hword d (hu ▸ List.mem_append_right u hd)]
    exact hrest
  · intro x hx
    have hends : EndsWord (v ++ x) := hv ▸ endsWord_dropWhile hx
    calc next? (c :: front ++ x)
      _ = scanWord (c :: front ++ x) := next?_eq_scanWord hmark (front ++ x)
      _ = scanWord (w ++ (v ++ x)) := by rw [← hsplit, List.append_assoc]
      _ = (scanWord w).map fun p => (p.1, p.2 ++ (v ++ x)) := local_scanWord.append w (v ++ x) hends
      _ = _ := by simp only [Option.map_map, Function.comp_def, List.append_assoc]

/-- **A token that starts a front ends inside it**, wherever there may be a seam behind the front. -/
theorem endsInside_of_after {c : Char} (h : Spot.outside.after (c :: front) = .outside) :
    EndsInside (c :: front) := by
  cases hmark : isMark c with
  | false => exact endsInside_word hmark h
  | true =>
    by_cases hquote : c = '"'
    · subst hquote
      exact endsInside_string h
    · exact endsInside_mark hmark hquote h

/-- In front of a seam, a blank or a token is taken, and what is left still has the seam; or there
is no token. -/
theorem Seam.step {d : Char} (h : Seam (d :: front) back) :
    (∀ x, Seam (d :: front) x → ∀ n, allWithin (n + 1) (d :: front ++ x) = none) ∨
    ∃ front' f, Seam front' back ∧
      ∀ x, Seam (d :: front) x →
        ∀ n, allWithin (n + 1) (d :: front ++ x) = (allWithin n (front' ++ x)).map f := by
  cases hd : isSpace d with
  | true =>
    have hquote : d ≠ '"' := by
      rintro rfl
      cases hd
    have hrest : Spot.outside.after front = .outside := by
      have hout := h.outside
      rw [Spot.after_cons, Spot.next_outside hquote] at hout
      exact hout
    refine .inr ⟨front, id, h.of_suffix (List.suffix_cons d front) hrest, ?_⟩
    intro x _ n
    rw [List.cons_append, allWithin, if_pos hd, Option.map_id_fun, id]
  | false =>
    obtain ⟨o, ho, hnext⟩ := endsInside_of_after h.outside
    cases o with
    | none =>
      refine .inl ?_
      intro x hx n
      have hnone : next? (d :: (front ++ x)) = none := hnext x hx
      rw [List.cons_append, allWithin, if_neg (Bool.eq_false_iff.mp hd), hnone]
      rfl
    | some p =>
      obtain ⟨hsuffix, hout⟩ := ho p rfl
      refine .inr ⟨p.2, (p.1 :: ·), h.of_suffix hsuffix hout, ?_⟩
      intro x hx n
      have hsome : next? (d :: (front ++ x)) = some (p.1, p.2 ++ x) := hnext x hx
      rw [List.cons_append, allWithin, if_neg (Bool.eq_false_iff.mp hd), hsome]
      show (allWithin n (p.2 ++ x) >>= _) = _
      cases allWithin n (p.2 ++ x) <;> rfl

/-- **White space at a seam is passed over.** The induction is on the bound, which falls with every
blank and every token. -/
theorem allWithin_seam {c : Char} (hc : isSpace c = true) (n : Nat) (h : Seam front back) :
    allWithin (n + 1) (front ++ c :: back) = allWithin n (front ++ back) := by
  induction n generalizing front with
  | zero =>
    cases front with
    | nil =>
      rw [List.nil_append, allWithin, if_pos hc]
      rfl
    | cons d front =>
      -- the bound is used up with the blank still to come
      rcases h.step with hnone | ⟨front', f, _, hstep⟩
      · rw [hnone _ (h.space hc)]
        rfl
      · rw [hstep _ (h.space hc)]
        cases front' <;> rfl
  | succ n ih =>
    cases front with
    | nil => rw [List.nil_append, allWithin, if_pos hc, List.nil_append]
    | cons d front =>
      rcases h.step with hnone | ⟨front', f, hseam, hstep⟩
      · rw [hnone _ (h.space hc), hnone _ h]
      · rw [hstep _ (h.space hc), hstep _ h, ih hseam]

theorem all?_seam {c : Char} (hc : isSpace c = true) (h : Seam front back) :
    all? (front ++ c :: back) = all? (front ++ back) := by
  have hlength : (front ++ c :: back).length = (front ++ back).length + 1 := by
    simp only [List.length_append, List.length_cons]
    omega
  unfold all?
  rw [hlength, allWithin_seam hc _ h]

end Token
end Narrative
