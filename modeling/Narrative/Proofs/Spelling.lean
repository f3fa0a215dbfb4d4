import Narrative.Json.Tree

/-!
# `Proofs.Spelling` — a JSON value is read as it is written

A text is read in two passes, characters to tokens and tokens to a tree. Each pass is shown to undo
its half of the writing in front of **any** continuation, so that the two inductions, over a list of
tokens and over a tree, go through without a look at what comes later.

One thing has to be asked of the continuation: digits in front of more digits read as one longer
numeral. A text **goes on apart** from a numeral if it starts with nothing that could belong to it,
and the tokens of a value are such that every numeral is followed by punctuation.

## Contents
- **Numerals.** `Apart`, and `scanNumeral_numeralChars` from its parts.
- **Strings.** `scanString_escaped` and `joinUnits_pieces`.
- **Tokens.** `next?_chars`; `Spaced` lists of tokens and `all?_chars`.
- **Values.** `spaced_tokens` and `readValue_tokens`; the main result `parse?_render`.
-/

namespace Narrative
namespace Token

/-! ## Numerals -/

/-- A text goes on **apart** from a numeral if it starts with nothing that continues one. -/
def Apart (rest : List Char) : Prop :=
  ∀ c ∈ rest.head?, c.isDigit = false ∧ c ≠ '.' ∧ c ≠ 'e' ∧ c ≠ 'E'

/-- A text without a digit in front. -/
def NoDigit (rest : List Char) : Prop := ∀ c ∈ rest.head?, c.isDigit = false

variable {rest : List Char}

theorem Apart.noDigit (h : Apart rest) : NoDigit rest := fun c hc => (h c hc).1

theorem noDigit_cons {c : Char} (h : c.isDigit = false) : NoDigit (c :: rest) :=
  fun _ hc => Option.some.inj hc ▸ h

/-- A run of digits is split off as a whole. -/
theorem scanDigits_append {ds : List Char} (hds : ∀ c ∈ ds, c.isDigit = true) (hrest : NoDigit rest) :
    scanDigits (ds ++ rest) = (ds, rest) := by
  have hnone : rest.takeWhile Char.isDigit = [] ∧ rest.dropWhile Char.isDigit = rest := by
    cases rest with
    | nil => exact ⟨rfl, rfl⟩
    | cons c rest =>
      have hc := hrest c rfl
      simp [hc]
  unfold scanDigits
  rw [List.takeWhile_append_of_pos hds, List.dropWhile_append_of_pos hds, hnone.1, hnone.2,
    List.append_nil]

theorem isDigit_toDigits (n : Nat) : ∀ c ∈ Nat.toDigits 10 n, c.isDigit = true := fun _ hc =>
  Nat.isDigit_of_mem_toDigits (by decide) (by decide) hc

theorem digitsValue_toDigits (n : Nat) : digitsValue (Nat.toDigits 10 n) = n := by
  have hfold : digitsValue (Nat.toDigits 10 n) = Nat.ofDigitChars 10 (Nat.toDigits 10 n) 0 := by
    unfold digitsValue Nat.ofDigitChars
    simp only [Nat.mul_comm]
  rw [hfold, Nat.ofDigitChars_toDigits (by decide) (by decide)]

/-- Only zero is written with a zero in front. -/
theorem head_toDigits {n : Nat} (hn : n ≠ 0) : (Nat.toDigits 10 n).head? ≠ some '0' := by
  induction n using Nat.strongRecOn with
  | _ n ih =>
    by_cases hlt : n < 10
    · have hdigit : ∀ n < 10, n ≠ 0 → [n.digitChar].head? ≠ some '0' := by decide
      rw [Nat.toDigits_of_lt_base hlt]
      exact hdigit n hlt hn
    · have hfront := ih (n / 10) (by omega) (by omega)
      obtain ⟨c, ds, hcons⟩ := List.exists_cons_of_ne_nil (Nat.toDigits_ne_nil (n := n / 10) (b := 10))
      rw [Nat.toDigits_of_base_le (by decide) (by omega), hcons]
      rwa [hcons] at hfront

/-- A run of digits with something in it. -/
theorem scanDigits_toDigits (n : Nat) (hrest : NoDigit rest) :
    ∃ c ds, Nat.toDigits 10 n = c :: ds ∧ scanDigits (Nat.toDigits 10 n ++ rest) = (c :: ds, rest) := by
  obtain ⟨c, ds, hcons⟩ := List.exists_cons_of_ne_nil (Nat.toDigits_ne_nil (n := n) (b := 10))
  exact ⟨c, ds, hcons, hcons ▸ scanDigits_append (isDigit_toDigits n) hrest⟩

theorem scanWhole_toDigits (n : Nat) (hrest : NoDigit rest) :
    scanWhole (Nat.toDigits 10 n ++ rest) = some (n, rest) := by
  by_cases hn : n = 0
  · rw [hn]; rfl
  · obtain ⟨c, ds, hcons, hscan⟩ := scanDigits_toDigits n hrest
    have hc : c ≠ '0' := fun h => head_toDigits hn (by rw [hcons, h]; rfl)
    have hvalue := digitsValue_toDigits n
    rw [hcons] at hscan hvalue ⊢
    unfold scanWhole
    split
    · next heq => exact absurd (List.cons.inj heq).1 hc
    · rw [hscan]
      exact congrArg (fun m => some (m, rest)) hvalue

/-- A digit of a fraction is written as that digit. -/
theorem digit_fractionChar (d : Fin 10) :
    (Char.ofNat ('0'.toNat + d.val)).isDigit = true ∧
    Numeral.digit (Char.ofNat ('0'.toNat + d.val)) = d := by
  revert d
  decide

theorem scanFraction_chars (fraction : List (Fin 10)) (hrest : NoDigit rest)
    (hpoint : rest.head? ≠ some '.') :
    scanFraction (fractionChars fraction ++ rest) = some (fraction, rest) := by
  cases fraction with
  | nil =>
    show scanFraction rest = _
    unfold scanFraction
    split
    · exact absurd rfl hpoint
    · rfl
  | cons d ds =>
    have hdigits : ∀ c ∈ (d :: ds).map fun d => Char.ofNat ('0'.toNat + d.val), c.isDigit = true := by
      intro c hc
      obtain ⟨d, _, rfl⟩ := List.mem_map.mp hc
      exact (digit_fractionChar d).1
    have hread : ((d :: ds).map fun d => Char.ofNat ('0'.toNat + d.val)).map Numeral.digit =
        d :: ds := by
      rw [List.map_map]
      exact (List.map_congr_left fun d _ => (digit_fractionChar d).2).trans (List.map_id _)
    rw [fractionChars, List.cons_append, scanFraction, scanDigits_append hdigits hrest]
    exact congrArg (fun ds => some (ds, rest)) hread

theorem scanSigned_chars (e : Int) (hrest : NoDigit rest) :
    scanSigned (signedChars e ++ rest) = some (e, rest) := by
  obtain ⟨c, ds, hcons, hscan⟩ := scanDigits_toDigits e.natAbs hrest
  have hvalue := digitsValue_toDigits e.natAbs
  unfold signedChars
  by_cases he : e < 0
  · rw [if_pos he]
    show scanSigned ('-' :: (Nat.toDigits 10 e.natAbs ++ rest)) = _
    rw [scanSigned, hscan]
    show some (-(digitsValue (c :: ds) : Int), rest) = some (e, rest)
    rw [← hcons, hvalue]
    congr 2
    omega
  · have hc : c.isDigit = true := isDigit_toDigits e.natAbs c (hcons ▸ List.mem_cons_self)
    rw [if_neg he, List.nil_append, hcons]
    rw [hcons] at hscan
    unfold scanSigned
    split
    · next heq =>
      rw [(List.cons.inj heq).1] at hc
      exact absurd hc (by decide)
    · have hplus : ¬((c :: ds) ++ rest).head? = some '+' := by
        intro h
        rw [Option.some.inj h] at hc
        exact absurd hc (by decide)
      rw [if_neg hplus, hscan]
      show some ((digitsValue (c :: ds) : Int), rest) = some (e, rest)
      rw [← hcons, hvalue]
      congr 2
      omega

theorem scanExponent_chars (exponent : Option Int) (hrest : Apart rest) :
    scanExponent (exponentChars exponent ++ rest) = some (exponent, rest) := by
  cases exponent with
  | none =>
    show scanExponent rest = _
    unfold scanExponent
    split
    · exact absurd rfl (hrest 'e' rfl).2.2.1
    · exact absurd rfl (hrest 'E' rfl).2.2.2
    · rfl
  | some e =>
    rw [exponentChars, List.cons_append, scanExponent, scanSigned_chars e hrest.noDigit]
    rfl

/-- **A numeral is read as it is written**, where the text goes on apart. -/
theorem scanNumeral_numeralChars (n : Numeral) (hrest : Apart rest) :
    scanNumeral (numeralChars n ++ rest) = some (n, rest) := by
  obtain ⟨negative, whole, fraction, exponent⟩ := n
  have hexponent := scanExponent_chars exponent hrest
  -- neither of the later parts starts with a digit, and an exponent not with a point
  have hpower :
      NoDigit (exponentChars exponent ++ rest) ∧ (exponentChars exponent ++ rest).head? ≠ some '.' := by
    cases exponent with
    | none => exact ⟨hrest.noDigit, fun h => (hrest '.' h).2.1 rfl⟩
    | some e => exact ⟨noDigit_cons rfl, fun h => absurd (Option.some.inj h) (by decide)⟩
  have hfraction := scanFraction_chars fraction hpower.1 hpower.2
  have hpoint : NoDigit (fractionChars fraction ++ (exponentChars exponent ++ rest)) := by
    cases fraction with
    | nil => exact hpower.1
    | cons d ds => exact noDigit_cons rfl
  have hwhole := scanWhole_toDigits whole hpoint
  have hsign :
      (Nat.toDigits 10 whole ++ (fractionChars fraction ++ (exponentChars exponent ++ rest))).head? ≠
      some '-' := by
    obtain ⟨c, ds, hcons⟩ := List.exists_cons_of_ne_nil (Nat.toDigits_ne_nil (n := whole) (b := 10))
    have hc : c.isDigit = true := isDigit_toDigits whole c (hcons ▸ List.mem_cons_self)
    rw [hcons]
    intro h
    rw [Option.some.inj h] at hc
    exact absurd hc (by decide)
  simp only [numeralChars, List.append_assoc]
  cases negative with
  | true =>
    simp only [scanNumeral, if_true, List.cons_append, List.nil_append, List.head?_cons, List.tail_cons,
      decide_true, hwhole, hfraction, hexponent, Option.bind_eq_bind, Option.bind_some, pure]
  | false =>
    simp only [scanNumeral, Bool.false_eq_true, if_false, List.nil_append, hsign, decide_false, hwhole,
      hfraction, hexponent, Option.bind_eq_bind, Option.bind_some, pure]

/-! ## Strings -/

theorem hexDigit?_hexChar : ∀ n < 16, hexDigit? (hexChar n) = some n := by decide

/-- A piece **stands for** a character if it is joined as that character, whatever comes after it. -/
def Piece.StandsFor (q : Piece) (c : Char) : Prop :=
  ∀ ps, joinUnits (q :: ps) = (joinUnits ps).map (c :: ·)

theorem standsFor_char (c : Char) : (Piece.char c).StandsFor c := fun _ => rfl

/-- A code unit outside the surrogates stands for the character with its number. -/
theorem standsFor_unit {n : Nat} (hn : n < 0xd800) : (Piece.unit n).StandsFor (Char.ofNat n) := by
  intro ps
  have hhigh : ¬(0xd800 ≤ n ∧ n < 0xdc00) := by omega
  have hlow : ¬(0xdc00 ≤ n ∧ n < 0xe000) := by omega
  have hneither : ¬(0xd800 ≤ n ∧ n < 0xe000) := by omega
  cases ps with
  | nil => simp [joinUnits, hneither]
  | cons q ps =>
    cases q with
    | char c => simp [joinUnits, hneither]
    | unit m => simp [joinUnits, hhigh, hlow]

theorem scanString_letter {c e : Char} (he : shortEscape? e = some c) (rest : List Char) :
    scanString ('\\' :: e :: rest) = (scanString rest).map fun p => (.char c :: p.1, p.2) := by
  have hu : e ≠ 'u' := by
    rintro rfl
    cases he
  rw [scanString, he]
  · cases scanString rest <;> rfl
  · intro _ _ _ _ _ h
    exact absurd h hu

theorem scanString_codeUnit {n : Nat} (hn : n < 0x20) (rest : List Char) :
    scanString ('\\' :: 'u' :: '0' :: '0' :: hexChar (n / 16) :: hexChar (n % 16) :: rest) =
      (scanString rest).map fun p => (.unit n :: p.1, p.2) := by
  have hunit : codeUnit? '0' '0' (hexChar (n / 16)) (hexChar (n % 16)) = some n := by
    have hzero : hexDigit? '0' = some 0 := rfl
    simp only [codeUnit?, hzero, hexDigit?_hexChar (n / 16) (by omega),
      hexDigit?_hexChar (n % 16) (by omega), Option.bind_eq_bind, Option.bind_some, pure]
    congr 1
    omega
  rw [scanString, hunit]
  cases scanString rest <;> rfl

theorem scanString_plain {c : Char} (hquote : c ≠ '"') (hback : c ≠ '\\') (hlow : ¬c.toNat < 0x20)
    (rest : List Char) :
    scanString (c :: rest) = (scanString rest).map fun p => (.char c :: p.1, p.2) := by
  rw [scanString]
  · simp only [hlow, hback, decide_false, Bool.or_false, Bool.false_eq_true, if_false]
    cases scanString rest <;> rfl
  · exact hquote
  · exact fun _ _ _ _ _ h => absurd h hback
  · exact fun _ _ h => absurd h hback

/-- **A written character is read as one piece that stands for it.** -/
theorem scanString_escaped (c : Char) : ∃ q : Piece, q.StandsFor c ∧
    ∀ rest, scanString (escaped c ++ rest) = (scanString rest).map fun p => (q :: p.1, p.2) := by
  unfold escaped
  split
  case h_8 hquote hback _ _ _ _ _ =>
    split
    · next hlow =>
      have hunit := standsFor_unit (n := c.toNat) (by omega)
      rw [Char.ofNat_toNat] at hunit
      exact ⟨.unit c.toNat, hunit, scanString_codeUnit hlow⟩
    · next hlow => exact ⟨.char c, standsFor_char c, scanString_plain hquote hback hlow⟩
  all_goals exact ⟨.char _, standsFor_char _, fun rest => scanString_letter rfl rest⟩

/-- **A written string is read up to its closing quote**, as pieces that join to it. -/
theorem scanString_flatMap (cs rest : List Char) : ∃ ps,
    scanString (cs.flatMap escaped ++ '"' :: rest) = some (ps, rest) ∧ joinUnits ps = some cs := by
  induction cs with
  | nil => exact ⟨[], by rw [List.flatMap_nil, List.nil_append, scanString], rfl⟩
  | cons c cs ih =>
    obtain ⟨ps, hps, hjoin⟩ := ih
    obtain ⟨q, hq, hscan⟩ := scanString_escaped c
    refine ⟨q :: ps, ?_, ?_⟩
    · rw [List.flatMap_cons, List.append_assoc, hscan, hps]
      rfl
    · rw [hq, hjoin]
      rfl

/-! ## Tokens -/

/-- Whether a token is a numeral. -/
def isNumeral : Token → Bool
  | number _ => true
  | _ => false

/-- The first character of a numeral. -/
def StartsNumeral (c : Char) : Prop := c = '-' ∨ c.isDigit = true

instance (c : Char) : Decidable (StartsNumeral c) :=
  inferInstanceAs (Decidable (c = '-' ∨ c.isDigit = true))

theorem numeralChars_cons (n : Numeral) : ∃ c cs, numeralChars n = c :: cs ∧ StartsNumeral c := by
  obtain ⟨c, ds, hcons⟩ := List.exists_cons_of_ne_nil (Nat.toDigits_ne_nil (n := n.whole) (b := 10))
  have hc : c.isDigit = true := isDigit_toDigits n.whole c (hcons ▸ List.mem_cons_self)
  unfold numeralChars
  cases n.negative with
  | true => exact ⟨'-', _, rfl, .inl rfl⟩
  | false =>
    rw [hcons]
    exact ⟨c, _, rfl, .inr hc⟩

/-- What starts like a numeral is read as one. -/
theorem next?_numeral {c : Char} (hc : StartsNumeral c) (cs : List Char) :
    next? (c :: cs) = (scanNumeral (c :: cs)).map fun (n, rest) => (.number n, rest) := by
  unfold next?
  split
  case h_11 => rfl
  all_goals
    next heq =>
      rw [(List.cons.inj heq).1] at hc
      exact absurd hc (by decide)

/-- **A token is read as it is written**; after a numeral the text has to go on apart. -/
theorem next?_chars (t : Token) (rest : List Char) (h : t.isNumeral = true → Apart rest) :
    next? (t.chars ++ rest) = some (t, rest) := by
  cases t with
  | number n =>
    obtain ⟨c, cs, hcons, hc⟩ := numeralChars_cons n
    have hscan := scanNumeral_numeralChars n (h rfl)
    rw [chars]
    rw [hcons] at hscan ⊢
    rw [List.cons_append] at hscan ⊢
    rw [next?_numeral hc, hscan]
    rfl
  | string s =>
    cases s with
    | none => rfl
    | some s =>
      obtain ⟨ps, hscan, hjoin⟩ := scanString_flatMap s.toList rest
      show next? ('"' :: (s.toList.flatMap escaped ++ ['"']) ++ rest) = _
      rw [List.cons_append, List.append_assoc, next?]
      show (scanString (_ ++ '"' :: rest) >>= _) = _
      rw [hscan]
      show some (string ((joinUnits ps).map String.ofList), rest) = _
      rw [hjoin, Option.map_some, String.ofList_toList]
  | bool b => cases b <;> rfl
  | _ => rfl

/-- Tokens are **spaced** if no numeral follows a numeral. -/
def Spaced : List Token → Prop
  | [] => True
  | t :: ts => (t.isNumeral = true → ∀ t' ∈ ts.head?, t'.isNumeral = false) ∧ Spaced ts

/-- A written token starts with a character that is no white space, and that continues a numeral
only if it starts one. -/
theorem chars_cons (t : Token) : ∃ c cs, t.chars = c :: cs ∧ isSpace c = false ∧
    (t.isNumeral = false → c.isDigit = false ∧ c ≠ '.' ∧ c ≠ 'e' ∧ c ≠ 'E') := by
  cases t with
  | number n =>
    obtain ⟨c, cs, hcons, hc⟩ := numeralChars_cons n
    refine ⟨c, cs, hcons, ?_, fun h => nomatch h⟩
    rcases hc with rfl | hdigit
    · rfl
    · refine Bool.eq_false_iff.mpr fun hspace => ?_
      simp only [isSpace, Bool.or_eq_true, decide_eq_true_eq] at hspace
      rcases hspace with ((rfl | rfl) | rfl) | rfl <;> exact absurd hdigit (by decide)
  | string s =>
    cases s with
    | none => exact ⟨'"', _, rfl, rfl, fun _ => by decide⟩
    | some s => exact ⟨'"', _, rfl, rfl, fun _ => by decide⟩
  | bool b => cases b <;> exact ⟨_, _, rfl, rfl, fun _ => by decide⟩
  | _ => exact ⟨_, _, rfl, rfl, fun _ => by decide⟩

/-- Where no numeral comes next, the text goes on apart. -/
theorem apart_flatMap {ts : List Token} (h : ∀ t ∈ ts.head?, t.isNumeral = false) :
    Apart (ts.flatMap chars) := by
  cases ts with
  | nil => exact fun _ hc => nomatch hc
  | cons t ts =>
    obtain ⟨c, cs, hcons, _, hc⟩ := chars_cons t
    rw [List.flatMap_cons, hcons]
    intro c' hc'
    cases Option.some.inj hc'
    exact hc (h t rfl)

theorem allWithin_chars {ts : List Token} (hts : Spaced ts) {bound : Nat}
    (hbound : (ts.flatMap chars).length ≤ bound) :
    allWithin bound (ts.flatMap chars) = some ts := by
  induction ts generalizing bound with
  | nil => cases bound <;> rfl
  | cons t ts ih =>
    obtain ⟨c, cs, hcons, hspace, _⟩ := chars_cons t
    have hnext := next?_chars t (ts.flatMap chars) fun ht => apart_flatMap (hts.1 ht)
    rw [List.flatMap_cons, hcons] at hbound ⊢
    rw [hcons] at hnext
    rw [List.cons_append] at hbound hnext ⊢
    -- the token takes at least its first character off the bound
    cases bound with
    | zero => exact absurd hbound (Nat.not_succ_le_zero _)
    | succ bound =>
      have hrest : (ts.flatMap chars).length ≤ bound := by
        rw [List.length_cons, List.length_append] at hbound
        omega
      rw [allWithin, hspace, if_neg Bool.false_ne_true, hnext]
      show (allWithin bound (ts.flatMap chars) >>= _) = _
      rw [ih hts.2 hrest]
      rfl

/-- **Spaced tokens are read as they are written.** -/
theorem all?_chars {ts : List Token} (hts : Spaced ts) : all? (ts.flatMap chars) = some ts :=
  allWithin_chars hts (Nat.le_refl _)

end Token

/-! ## Values -/

namespace Json
open Token

mutual

/-- In front of spaced tokens that do not start with a numeral, the tokens of a value are spaced. -/
theorem spaced_tokens (j : Json) {rest : List Token} (hrest : Spaced rest)
    (hnext : ∀ t ∈ rest.head?, t.isNumeral = false) :
    Spaced (j.tokens ++ rest) := by
  cases j with
  | null => exact ⟨fun h => (nomatch h), hrest⟩
  | bool b => exact ⟨fun h => (nomatch h), hrest⟩
  | number n => exact ⟨fun _ => hnext, hrest⟩
  | string s => exact ⟨fun h => (nomatch h), hrest⟩
  | array xs => exact ⟨fun h => (nomatch h), spaced_itemTokens xs hrest⟩
  | object ms => exact ⟨fun h => (nomatch h), spaced_memberTokens ms hrest⟩
  | unreadable => exact ⟨fun h => (nomatch h), hrest⟩

theorem spaced_itemTokens (xs : List Json) {rest : List Token} (hrest : Spaced rest) :
    Spaced (itemTokens xs ++ rest) := by
  match xs with
  | [] => exact ⟨fun h => (nomatch h), hrest⟩
  | [x] =>
    rw [itemTokens, List.append_assoc]
    exact spaced_tokens x ⟨fun h => (nomatch h), hrest⟩ fun t ht => by cases ht; rfl
  | x :: y :: xs =>
    rw [itemTokens, List.append_assoc]
    exact spaced_tokens x ⟨fun h => (nomatch h), spaced_itemTokens (y :: xs) hrest⟩
      fun t ht => by cases ht; rfl

theorem spaced_memberTokens (ms : List (String × Json)) {rest : List Token} (hrest : Spaced rest) :
    Spaced (memberTokens ms ++ rest) := by
  match ms with
  | [] => exact ⟨fun h => (nomatch h), hrest⟩
  | [(n, x)] =>
    show Spaced (.string (some n) :: .colon :: (x.tokens ++ [.rightBrace] ++ rest))
    rw [List.append_assoc]
    have hclose : Spaced (.rightBrace :: rest) := ⟨fun h => (nomatch h), hrest⟩
    have hvalue := spaced_tokens x hclose fun t ht => by cases ht; rfl
    exact ⟨fun h => (nomatch h), fun h => (nomatch h), hvalue⟩
  | (n, x) :: m :: ms =>
    show Spaced (.string (some n) :: .colon :: (x.tokens ++ .comma :: memberTokens (m :: ms) ++ rest))
    rw [List.append_assoc]
    have hmore : Spaced (.comma :: (memberTokens (m :: ms) ++ rest)) :=
      ⟨fun h => (nomatch h), spaced_memberTokens (m :: ms) hrest⟩
    have hvalue := spaced_tokens x hmore fun t ht => by cases ht; rfl
    exact ⟨fun h => (nomatch h), fun h => (nomatch h), hvalue⟩

end

/-- The tokens of a value do not start by closing a bracket or a brace. -/
theorem tokens_cons (j : Json) : ∃ t ts, j.tokens = t :: ts ∧ t ≠ .rightBracket ∧ t ≠ .rightBrace := by
  cases j <;> exact ⟨_, _, rfl, fun h => (nomatch h), fun h => (nomatch h)⟩

theorem itemTokens_cons (x : Json) (xs : List Json) :
    ∃ t ts, itemTokens (x :: xs) = t :: ts ∧ t ≠ .rightBracket := by
  obtain ⟨t, ts, hcons, ht, _⟩ := tokens_cons x
  cases xs <;> (rw [itemTokens, hcons]; exact ⟨t, _, rfl, ht⟩)

theorem memberTokens_cons (m : String × Json) (ms : List (String × Json)) :
    ∃ ts, memberTokens (m :: ms) = .string (some m.1) :: ts := by
  cases ms <;> exact ⟨_, rfl⟩

theorem length_tokens_pos (j : Json) : 0 < j.tokens.length := by
  obtain ⟨t, ts, hcons, _⟩ := tokens_cons j
  rw [hcons]
  exact Nat.succ_pos _

mutual

/-- **The tokens of a value are read as that value**, whatever comes after them. The bound may be
the number of tokens: every call takes one off, and takes at least one token with it. -/
theorem readValue_tokens (j : Json) (rest : List Token) {bound : Nat}
    (hbound : j.tokens.length ≤ bound) :
    readValue bound (j.tokens ++ rest) = some (j, rest) := by
  have hpos := length_tokens_pos j
  match bound with
  | 0 => omega
  | bound + 1 =>
    cases j with
    | array xs =>
      cases xs with
      | nil => rfl
      | cons x xs =>
        have hitems := readItems_tokens x xs rest (Nat.le_of_succ_le_succ hbound)
        obtain ⟨t, ts, hcons, ht⟩ := itemTokens_cons x xs
        show readValue (bound + 1) (.leftBracket :: (itemTokens (x :: xs) ++ rest)) = _
        rw [readValue, hitems]
        · rfl
        · intro rest' h
          rw [hcons] at h
          exact ht (List.cons.inj h).1
    | object ms =>
      cases ms with
      | nil => rfl
      | cons m ms =>
        have hmembers := readMembers_tokens m ms rest (Nat.le_of_succ_le_succ hbound)
        obtain ⟨ts, hcons⟩ := memberTokens_cons m ms
        show readValue (bound + 1) (.leftBrace :: (memberTokens (m :: ms) ++ rest)) = _
        rw [readValue, hmembers]
        · rfl
        · intro rest' h
          rw [hcons] at h
          cases (List.cons.inj h).1
    | _ => rfl
termination_by bound

/-- The items of an array, of which there is at least one. -/
theorem readItems_tokens (x : Json) (xs : List Json) (rest : List Token) {bound : Nat}
    (hbound : (itemTokens (x :: xs)).length ≤ bound) :
    readItems bound (itemTokens (x :: xs) ++ rest) = some (x :: xs, rest) := by
  have hpos := length_tokens_pos x
  cases bound with
  | zero =>
    obtain ⟨t, ts, hcons, _⟩ := itemTokens_cons x xs
    rw [hcons] at hbound
    exact absurd hbound (Nat.not_succ_le_zero _)
  | succ bound =>
    match xs with
    | [] =>
      rw [itemTokens, List.length_append, List.length_singleton] at hbound
      have hvalue :
          readValue bound (x.tokens ++ ([.rightBracket] ++ rest)) = some (x, .rightBracket :: rest) :=
        readValue_tokens x _ (by omega)
      rw [itemTokens, List.append_assoc, readItems, hvalue]
    | y :: xs =>
      rw [itemTokens, List.length_append, List.length_cons] at hbound
      have hvalue : readValue bound (x.tokens ++ (.comma :: itemTokens (y :: xs) ++ rest)) =
          some (x, .comma :: itemTokens (y :: xs) ++ rest) := readValue_tokens x _ (by omega)
      have hmore : readItems bound (itemTokens (y :: xs) ++ rest) = some (y :: xs, rest) :=
        readItems_tokens y xs rest (by omega)
      rw [itemTokens, List.append_assoc, readItems, hvalue]
      show (readItems bound (itemTokens (y :: xs) ++ rest)).map _ = _
      rw [hmore]
      rfl
termination_by bound

/-- The members of an object, of which there is at least one. -/
theorem readMembers_tokens (m : String × Json) (ms : List (String × Json)) (rest : List Token)
    {bound : Nat} (hbound : (memberTokens (m :: ms)).length ≤ bound) :
    readMembers bound (memberTokens (m :: ms) ++ rest) = some (some (m :: ms), rest) := by
  obtain ⟨name, x⟩ := m
  cases bound with
  | zero =>
    obtain ⟨ts, hcons⟩ := memberTokens_cons (name, x) ms
    rw [hcons] at hbound
    exact absurd hbound (Nat.not_succ_le_zero _)
  | succ bound =>
    match ms with
    | [] =>
      have hlength : (x.tokens ++ [rightBrace]).length + 1 ≤ bound := Nat.le_of_succ_le_succ hbound
      rw [List.length_append, List.length_singleton] at hlength
      have hvalue :
          readValue bound (x.tokens ++ ([.rightBrace] ++ rest)) = some (x, .rightBrace :: rest) :=
        readValue_tokens x _ (by omega)
      show readMembers (bound + 1)
        (.string (some name) :: .colon :: (x.tokens ++ [.rightBrace] ++ rest)) = _
      rw [List.append_assoc, readMembers, hvalue]
      rfl
    | m :: ms =>
      have hlength : (x.tokens ++ .comma :: memberTokens (m :: ms)).length + 1 ≤ bound :=
        Nat.le_of_succ_le_succ hbound
      rw [List.length_append, List.length_cons] at hlength
      have hvalue : readValue bound (x.tokens ++ (.comma :: memberTokens (m :: ms) ++ rest)) =
          some (x, .comma :: memberTokens (m :: ms) ++ rest) := readValue_tokens x _ (by omega)
      have hmore : readMembers bound (memberTokens (m :: ms) ++ rest) = some (some (m :: ms), rest) :=
        readMembers_tokens m ms rest (by omega)
      show readMembers (bound + 1)
        (.string (some name) :: .colon :: (x.tokens ++ .comma :: memberTokens (m :: ms) ++ rest)) = _
      rw [List.append_assoc, readMembers, hvalue]
      show (readMembers bound (memberTokens (m :: ms) ++ rest)).map _ = _
      rw [hmore]
      rfl
termination_by bound

end

/-- **A value is read as it is written.** -/
theorem parse?_render (j : Json) : parse? j.render = some j := by
  have hspaced : Spaced j.tokens := by
    have h : Spaced (j.tokens ++ []) := spaced_tokens j trivial fun t ht => nomatch ht
    rwa [List.append_nil] at h
  have hread := readValue_tokens j [] (Nat.le_succ j.tokens.length)
  rw [List.append_nil] at hread
  unfold parse? render
  rw [String.toList_ofList, all?_chars hspaced]
  show ofTokens? j.tokens = some j
  rw [ofTokens?, hread]

end Json
end Narrative
