import Stackscript.Proofs.LexicalErrors

/-!
# Number literals

A number literal is digits, then perhaps a point and digits, then perhaps a letter, a sign and
digits; digits may have underscores between and behind them. The scanner takes the longest first
part of the text that has this form: each of its parts is taken if it has a digit where it needs
one, and a shorter part could not be followed by the next. Without its underscores the literal is a
decimal, which can be read. So a token that begins with a digit is always a number.

* `DigitRun`, `Digits`: digits with and without underscores;
* `FractionForm`, `ExponentForm`, `NumberForm`: the form of a number over either;
* `Longest`, **`longest_numberLexeme`**: what the scanner takes;
* `NumberForm.filter`, **`Number.exists_read?`**: what is read;
* **`Token.number_literals`**: tokens that begin with a digit.
-/

namespace Stackscript

/-! ## Forms -/

/-- A digit, and digits and underscores behind it. -/
def DigitRun (cs : List Char) : Prop :=
  ∃ d ds, cs = d :: ds ∧ d.isDigit = true ∧ ∀ c ∈ ds, c.isDigit = true ∨ c = '_'

/-- Digits, one at least. -/
def Digits (cs : List Char) : Prop := cs ≠ [] ∧ ∀ c ∈ cs, c.isDigit = true

section Forms

variable (D : List Char → Prop)

/-- A point and digits, or nothing. -/
inductive FractionForm : List Char → Prop where
  | none : FractionForm []
  | digits {ds : List Char} : D ds → FractionForm ('.' :: ds)

/-- The letter of an exponent, perhaps a sign, and digits; or nothing. -/
inductive ExponentForm : List Char → Prop where
  | none : ExponentForm []
  | digits {e : Char} {sign ds : List Char} : e = 'e' ∨ e = 'E' → sign ∈ [[], ['+'], ['-']] → D ds →
      ExponentForm (e :: (sign ++ ds))

/-- **The form of a number**: digits, with a fraction and an exponent. -/
inductive NumberForm : List Char → Prop where
  | parts {whole fraction exponent : List Char} : D whole → FractionForm D fraction →
      ExponentForm D exponent → NumberForm (whole ++ (fraction ++ exponent))

end Forms

variable {D : List Char → Prop} {cs ds rest whole fraction exponent : List Char}

theorem DigitRun.all (h : DigitRun ds) : ∀ c ∈ ds, isDigitChar c = true := by
  obtain ⟨d, ds, rfl, hd, hds⟩ := h
  intro c hc
  obtain rfl | hc := List.mem_cons.1 hc
  · simp [isDigitChar, hd]
  · simpa [isDigitChar] using hds c hc

theorem digitRun_takeWhile {d : Char} (hd : d.isDigit = true) (cs : List Char) :
    DigitRun (d :: cs.takeWhile isDigitChar) := by
  refine ⟨d, _, rfl, hd, fun c hc => ?_⟩
  have hall := List.all_takeWhile (p := isDigitChar) (l := cs)
  rw [List.all_eq_true] at hall
  simpa [isDigitChar] using hall c hc

/-- A fraction or an exponent does not begin with a digit or an underscore. -/
theorem head_fraction_exponent (hfraction : FractionForm D fraction)
    (hexponent : ExponentForm D exponent) :
    ∀ c ∈ (fraction ++ exponent).head?, isDigitChar c = false := by
  intro c hc
  cases hfraction with
  | digits =>
    cases hc
    rfl
  | none =>
    cases hexponent with
    | none => cases hc
    | digits he =>
      cases hc
      obtain rfl | rfl := he <;> rfl

theorem isDigit_eq_false {c : Char} (h : isDigitChar c = false) : c.isDigit = false :=
  (Bool.or_eq_false_iff.1 h).1

/-! ## What the scanner takes -/

theorem fractionForm_fractionLexeme (cs : List Char) :
    FractionForm DigitRun (fractionLexeme cs) := by
  unfold fractionLexeme
  split
  · split
    · next hd => exact .digits (digitRun_takeWhile hd _)
    · exact .none
  · exact .none

theorem exponentForm_exponentLexeme (cs : List Char) :
    ExponentForm DigitRun (exponentLexeme cs) := by
  cases cs with
  | nil => exact .none
  | cons e cs =>
    simp only [exponentLexeme]
    split
    · next he =>
      have hsign : signLexeme cs ∈ [[], ['+'], ['-']] := by
        unfold signLexeme
        split <;> decide
      split
      · split
        · next hd => exact .digits he hsign (digitRun_takeWhile hd _)
        · exact .none
      · exact .none
    · exact .none

theorem numberForm_numberLexeme {c : Char} (hc : c.isDigit = true) (cs : List Char) :
    NumberForm DigitRun (numberLexeme (c :: cs)) := by
  have hwhole : (c :: cs).takeWhile isDigitChar = c :: cs.takeWhile isDigitChar :=
    List.takeWhile_cons_of_pos (by simp [isDigitChar, hc])
  rw [numberLexeme, List.append_assoc, hwhole]
  exact .parts (digitRun_takeWhile hc cs) (fractionForm_fractionLexeme _)
    (exponentForm_exponentLexeme _)

/-- Characters with a property at the start of a text, and others behind them: if there are others,
then the text begins with no more characters that have the property. -/
theorem prefix_takeWhile {p : Char → Bool} {run tail : List Char} (hrun : ∀ c ∈ run, p c = true)
    (htail : ∀ c ∈ tail.head?, p c = false) (h : run ++ tail <+: cs) :
    tail = [] ∧ run <+: cs.takeWhile p ∨ run = cs.takeWhile p := by
  obtain ⟨post, rfl⟩ := h
  rw [List.append_assoc, List.takeWhile_append_of_pos hrun]
  cases tail with
  | nil => exact .inl ⟨rfl, List.prefix_append _ _⟩
  | cons t tail =>
    have ht : ¬ p t = true := Bool.eq_false_iff.1 (htail t rfl)
    rw [List.cons_append, List.takeWhile_cons_of_neg ht, List.append_nil]
    exact .inr rfl

/-- A fraction at the start of a text, with an exponent behind it. -/
theorem prefix_fractionLexeme (hfraction : FractionForm DigitRun fraction)
    (hexponent : ExponentForm DigitRun exponent) (h : fraction ++ exponent <+: rest) :
    exponent = [] ∧ fraction <+: fractionLexeme rest ∨ fraction = fractionLexeme rest := by
  cases hfraction with
  | none =>
    cases hexponent with
    | none => exact .inl ⟨rfl, List.nil_prefix⟩
    | @digits e sign ds he =>
      obtain ⟨post, rfl⟩ := h
      have hpoint : e ≠ '.' := by obtain rfl | rfl := he <;> decide
      exact .inr (fractionLexeme_of_ne hpoint).symm
  | digits hrun =>
    have hall := hrun.all
    obtain ⟨d, ds, rfl, hd, -⟩ := hrun
    obtain ⟨post, rfl⟩ := h
    have hlexeme : fractionLexeme ('.' :: d :: (ds ++ exponent ++ post)) =
        '.' :: d :: (ds ++ exponent ++ post).takeWhile isDigitChar := if_pos hd
    simp only [List.cons_append, hlexeme, List.cons_prefix_cons, List.cons.injEq, true_and]
    exact prefix_takeWhile (fun c hc => hall c (List.mem_cons_of_mem d hc))
      (head_fraction_exponent (.none : FractionForm DigitRun []) hexponent)
      (List.prefix_append _ post)

/-- An exponent at the start of a text. -/
theorem prefix_exponentLexeme (hexponent : ExponentForm DigitRun exponent) (h : exponent <+: rest) :
    exponent <+: exponentLexeme rest := by
  cases hexponent with
  | none => exact List.nil_prefix
  | @digits e sign ds he hsign hrun =>
    have hall := hrun.all
    obtain ⟨d, ds, rfl, hd, -⟩ := hrun
    obtain ⟨post, rfl⟩ := h
    have hds : ds <+: (ds ++ post).takeWhile isDigitChar := by
      rw [List.takeWhile_append_of_pos fun c hc => hall c (List.mem_cons_of_mem d hc)]
      exact List.prefix_append _ _
    have hlexeme : exponentLexeme (e :: (sign ++ d :: ds) ++ post) =
        e :: (sign ++ d :: (ds ++ post).takeWhile isDigitChar) := by
      simp only [List.mem_cons, List.not_mem_nil, or_false] at hsign
      obtain rfl | rfl | rfl := hsign
      · have hmark : ¬ (d = '+' ∨ d = '-') := by
          rintro (rfl | rfl) <;> cases hd
        exact (exponentLexeme_plain he hmark).trans (if_pos hd)
      · exact (exponentLexeme_signed he (.inl rfl)).trans (if_pos hd)
      · exact (exponentLexeme_signed he (.inr rfl)).trans (if_pos hd)
    rw [hlexeme, List.cons_prefix_cons, List.prefix_append_right_inj, List.cons_prefix_cons]
    exact ⟨rfl, rfl, hds⟩

/-- **The longest first part of a text** that has a property: every first part that has it is a part
of this one. -/
structure Longest (P : List Char → Prop) (cs lexeme : List Char) : Prop where
  starts : lexeme <+: cs
  holds : P lexeme
  longest : ∀ part, part <+: cs → P part → part <+: lexeme

/-- **The scanner takes the longest number.** -/
theorem longest_numberLexeme {c : Char} (hc : c.isDigit = true) (cs : List Char) :
    Longest (NumberForm DigitRun) (c :: cs) (numberLexeme (c :: cs)) := by
  refine ⟨numberLexeme_starts _, numberForm_numberLexeme hc cs, fun part hpart hform => ?_⟩
  generalize c :: cs = text at hpart ⊢
  rw [numberLexeme, List.append_assoc]
  cases hform with
  | @parts whole fraction exponent hwhole hfraction hexponent =>
    obtain ⟨hnil, hshort⟩ | rfl :=
      prefix_takeWhile hwhole.all (head_fraction_exponent hfraction hexponent) hpart
    · rw [hnil, List.append_nil]
      exact hshort.trans (List.prefix_append _ _)
    -- the digits before the point are all there are, and so are those behind it
    conv at hpart => rhs; rw [← List.takeWhile_append_dropWhile (p := isDigitChar) (l := text)]
    rw [List.prefix_append_right_inj] at hpart ⊢
    generalize text.dropWhile isDigitChar = rest at hpart ⊢
    obtain ⟨rfl, hshort⟩ | rfl := prefix_fractionLexeme hfraction hexponent hpart
    · rw [List.append_nil]
      exact hshort.trans (List.prefix_append _ _)
    rw [List.prefix_append_right_inj]
    apply prefix_exponentLexeme hexponent
    have hrest := List.prefix_iff_eq_append.1 (fractionLexeme_starts rest)
    conv at hpart => rhs; rw [← hrest]
    exact (List.prefix_append_right_inj _).1 hpart

/-! ## What is read -/

theorem DigitRun.filter (h : DigitRun ds) : Digits (ds.filter (· != '_')) := by
  obtain ⟨d, ds, rfl, hd, hds⟩ := h
  have hmark : (d != '_') = true := by
    rw [bne_iff_ne]
    rintro rfl
    cases hd
  rw [List.filter_cons_of_pos (p := (· != '_')) hmark]
  refine ⟨List.cons_ne_nil _ _, List.forall_mem_cons.2 ⟨hd, fun c hc => ?_⟩⟩
  obtain ⟨hmem, hc⟩ := List.mem_filter.1 hc
  exact (hds c hmem).resolve_right (bne_iff_ne.1 hc)

/-- **Without its underscores**, a number with underscores between its digits is a decimal. -/
theorem NumberForm.filter (h : NumberForm DigitRun cs) :
    NumberForm Digits (cs.filter (· != '_')) := by
  cases h with
  | parts hwhole hfraction hexponent =>
    rw [List.filter_append, List.filter_append]
    refine .parts hwhole.filter ?_ ?_
    · cases hfraction with
      | none => exact .none
      | digits h => exact .digits h.filter
    · cases hexponent with
      | none => exact .none
      | @digits e sign ds he hsign h =>
        have hletter : (e != '_') = true := by obtain rfl | rfl := he <;> rfl
        have hmarks : sign.filter (· != '_') = sign := by
          simp only [List.mem_cons, List.not_mem_nil, or_false] at hsign
          obtain rfl | rfl | rfl := hsign <;> rfl
        rw [List.filter_cons_of_pos (p := (· != '_')) hletter, List.filter_append, hmarks]
        exact .digits he hsign h.filter

namespace Number

theorem readDigits?_append {tail : List Char} (hds : Digits ds)
    (htail : ∀ c ∈ tail.head?, c.isDigit = false) : readDigits? (ds ++ tail) = some (ds, tail) := by
  have htake : tail.takeWhile Char.isDigit = [] ∧ tail.dropWhile Char.isDigit = tail := by
    cases tail with
    | nil => exact ⟨rfl, rfl⟩
    | cons t tail =>
      have ht : ¬ t.isDigit = true := Bool.eq_false_iff.1 (htail t rfl)
      exact ⟨List.takeWhile_cons_of_neg ht, List.dropWhile_cons_of_neg ht⟩
  rw [readDigits?, List.takeWhile_append_of_pos hds.2, List.dropWhile_append_of_pos hds.2, htake.1,
    htake.2, List.append_nil]
  cases ds with
  | nil => exact absurd rfl hds.1
  | cons d ds => rfl

theorem exists_readExponent? (h : ExponentForm Digits exponent) :
    ∃ e, readExponent? exponent = some e := by
  cases h with
  | none => exact ⟨0, rfl⟩
  | @digits e sign ds he hsign hds =>
    have hread : readDigits? (ds ++ []) = some (ds, []) := readDigits?_append hds nofun
    rw [List.append_nil] at hread
    have hfirst : ∀ c ∈ ds.head?, c.isDigit = true := fun c hc => hds.2 c (List.mem_of_mem_head? hc)
    simp only [readExponent?, if_pos he]
    simp only [List.mem_cons, List.not_mem_nil, or_false] at hsign
    obtain rfl | rfl | rfl := hsign
    · rw [List.nil_append]
      split
      · exact ⟨_, rfl⟩
      · next hnone =>
        refine absurd ?_ (hnone ds)
        split
        · cases hfirst _ rfl
        · cases hfirst _ rfl
        · exact hread
    · simp only [List.singleton_append, hread]
      exact ⟨_, rfl⟩
    · simp only [List.singleton_append, hread]
      exact ⟨_, rfl⟩

/-- **Every decimal can be read.** -/
theorem exists_read? (h : NumberForm Digits cs) : ∃ n, read? cs = some n := by
  cases h with
  | @parts whole fraction exponent hwhole hfraction hexponent =>
    obtain ⟨e, he⟩ := exists_readExponent? hexponent
    have htail := head_fraction_exponent hfraction hexponent
    have hwhole := readDigits?_append hwhole fun c hc => isDigit_eq_false (htail c hc)
    simp only [read?, hwhole, Option.bind_eq_bind, Option.bind_some]
    cases hfraction with
    | none =>
      cases hexponent with
      | none => exact ⟨_, rfl⟩
      | digits hletter =>
        rw [List.nil_append]
        split
        · next hpoint =>
          cases hpoint
          exact absurd hletter (by decide)
        · simp only [Option.bind_some, he]
          exact ⟨_, rfl⟩
    | digits hds =>
      have hbehind : ∀ c ∈ exponent.head?, isDigitChar c = false :=
        head_fraction_exponent .none hexponent
      have hds := readDigits?_append hds fun c hc => isDigit_eq_false (hbehind c hc)
      simp only [List.cons_append, hds, Option.bind_some, he]
      exact ⟨_, rfl⟩

end Number

/-! ## Tokens -/

/-- **A number is read without an error.** -/
theorem scanNumber_eq (pos : Nat) {c : Char} (hc : c.isDigit = true) (cs : List Char) :
    ∃ n, Number.read? ((numberLexeme (c :: cs)).filter (· != '_')) = some n ∧
      scanNumber pos (c :: cs) = ⟨.number n, [], pos + byteLength (numberLexeme (c :: cs)),
        (c :: cs).drop (numberLexeme (c :: cs)).length⟩ := by
  obtain ⟨n, hn⟩ := Number.exists_read? (numberForm_numberLexeme hc cs).filter
  refine ⟨n, hn, ?_⟩
  simp only [scanNumber, hn]

/-- A token that begins with a digit is read as a number. -/
theorem scanToken_digit (pos : Nat) {c : Char} (hc : c.isDigit = true) (cs : List Char) :
    scanToken pos c cs = scanNumber pos (c :: cs) := by
  have hsymbol : symbolAt? c cs = none := by
    simp only [symbolAt?]
    split
    all_goals first
      | rfl
      | cases hc
  have hquote : ¬ (c = '"' ∨ c = '\'') := by
    rintro (rfl | rfl) <;> cases hc
  simp only [scanToken, hsymbol, if_neg hquote, if_pos hc]

theorem skipTrivia_digit (pos : Nat) {c : Char} (hc : c.isDigit = true) (cs : List Char) :
    skipTrivia pos (c :: cs) = ⟨[], pos, c :: cs⟩ := by
  have hne : ∀ d : Char, d.isDigit = false → (c == d) = false := by
    intro d hd
    rw [beq_eq_false_iff_ne]
    rintro rfl
    cases hd.symm.trans hc
  apply skipTrivia_token
  · simp [isBlank, hne]
  · simp [opensComment, hne]

/-- **Number literals.**

Where a text begins with a digit, whatever stands behind it, its first token spans the longest first
part that has the form of a number with underscores between digits. Without the underscores this
part has the form of a decimal, which can be read: the token is the number that is read, and no
error is reported for it. So no text has an invalid number. -/
theorem Token.number_literals :
    (∀ (pos : Nat) (c : Char) (cs : List Char), c.isDigit = true →
      ∃ lexeme rest n, c :: cs = lexeme ++ rest ∧ Longest (NumberForm DigitRun) (c :: cs) lexeme ∧
        NumberForm Digits (lexeme.filter (· != '_')) ∧ Number.read? (lexeme.filter (· != '_')) =
        some n ∧ scanFrom pos (c :: cs) =
          ⟨⟨⟨pos, pos + byteLength lexeme⟩, .number n⟩ ::
            (scanFrom (pos + byteLength lexeme) rest).tokens,
            (scanFrom (pos + byteLength lexeme) rest).errors⟩) ∧
      ∀ (source : String), ∀ e ∈ (Token.scan source).errors, ∀ text,
        e.val ≠ .invalidNumber text := by
  constructor
  · intro pos c cs hc
    obtain ⟨n, hn, hscan⟩ := scanNumber_eq pos hc cs
    have hlongest := longest_numberLexeme hc cs
    refine ⟨_, _, n, (List.prefix_iff_eq_append.1 hlongest.starts).symm, hlongest,
      hlongest.holds.filter, hn, ?_⟩
    exact scanFrom_token (skipTrivia_digit pos hc cs) ((scanToken_digit pos hc cs).trans hscan)
  · intro source e he text htext
    obtain ⟨start, c, rest, hc, hnumber⟩ := (errors_scanFrom 0 source.toList e he).number text htext
    obtain ⟨n, -, hscan⟩ := scanNumber_eq start hc rest
    rw [hscan] at hnumber
    cases hnumber

/-- The exponent of `1_0.5e+_2` has no digit where it needs one, so that it is no part of the
number. -/
theorem Token.number_literals_underscore :
    '1'.isDigit = true ∧
      ∃ lexeme rest n, "1_0.5e+_2".toList = lexeme ++ rest ∧
        Longest (NumberForm DigitRun) "1_0.5e+_2".toList lexeme ∧
        NumberForm Digits (lexeme.filter (· != '_')) ∧ Number.read? (lexeme.filter (· != '_')) =
        some n ∧ scanFrom 4 "1_0.5e+_2".toList =
          ⟨⟨⟨4, 4 + byteLength lexeme⟩, .number n⟩ ::
            (scanFrom (4 + byteLength lexeme) rest).tokens,
            (scanFrom (4 + byteLength lexeme) rest).errors⟩ :=
  ⟨rfl, Token.number_literals.1 4 '1' "_0.5e+_2".toList rfl⟩

end Stackscript
