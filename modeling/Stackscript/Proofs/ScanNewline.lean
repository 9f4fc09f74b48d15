import Stackscript.Proofs.ScanBoundaries

/-!
# Scanning across a newline

A newline ends a comment to the end of the line, and every token but a string: no symbol, number or
word has a newline in it. So a text that is two texts with a newline between them has the tokens of
the first, and then those of the second, moved behind the newline. Only a string or a block comment
of the first text that has no end would go on in the second.

* `skipTrivia_newline_token`, `skipTrivia_newline_end`, `scanToken_newline`: a gap and a token
  before a newline;
* **`Token.scan_append_newline`**: the tokens and the errors of the whole text.
-/

namespace Stackscript

/-! ## Gaps before a newline -/

section Gaps

variable {pos start : Nat} {c : Char} {cs r : List Char} {errors : List (Located LexError)}

theorem lineComment_newline (pos : Nat) (cs post : List Char) :
    lineComment pos (cs ++ '\n' :: post) =
      ((lineComment pos cs).1, (lineComment pos cs).2 ++ '\n' :: post) := by
  obtain ⟨text, htext, -, hfree, -⟩ := lineComment_spec pos (cs ++ '\n' :: post)
  exact lineComment_cut (suffix_of_not_mem htext fun hmem => hfree _ hmem (.inl rfl))

/-- A newline behind a token ends no gap. -/
theorem skipTrivia_newline_token (post : List Char)
    (h : skipTrivia pos cs = ⟨errors, start, c :: r⟩) :
    skipTrivia pos (cs ++ '\n' :: post) = ⟨errors, start, c :: (r ++ '\n' :: post)⟩ := by
  fun_induction skipTrivia pos cs with
  | case1 pos => cases h
  | case2 pos d cs hblank ih =>
    rw [List.cons_append, skipTrivia_blank hblank]
    exact ih h
  | case3 pos body stop rest hline _ _ ih =>
    rw [List.cons_append, List.cons_append, skipTrivia_line, lineComment_newline, hline]
    exact ih h
  | case4 pos body stop rest hblock _ _ ih =>
    rw [List.cons_append, List.cons_append, skipTrivia_closed (blockComment_followed hblock _)]
    exact ih h
  | case5 pos body stop rest hblock _ => cases h
  | case6 pos d rest hline hblock hblank =>
    have hcomment : opensComment d (rest ++ '\n' :: post) = false := by
      cases rest with
      | nil => simp [opensComment]
      | cons x rest =>
        have hshort : opensComment d (x :: rest) = false := opensComment_eq_false hline hblock
        exact hshort
    cases h
    exact skipTrivia_token (Bool.eq_false_iff.2 hblank) hcomment

/-- A newline behind a gap is a part of the gap. -/
theorem skipTrivia_newline_end (post : List Char) (h : skipTrivia pos cs = ⟨[], start, []⟩) :
    skipTrivia pos (cs ++ '\n' :: post) = skipTrivia (start + 1) post := by
  fun_induction skipTrivia pos cs with
  | case1 pos =>
    cases h
    exact skipTrivia_blank rfl
  | case2 pos d cs hblank ih =>
    rw [List.cons_append, skipTrivia_blank hblank]
    exact ih h
  | case3 pos body stop rest hline _ _ ih =>
    rw [List.cons_append, List.cons_append, skipTrivia_line, lineComment_newline, hline]
    exact ih h
  | case4 pos body stop rest hblock _ _ ih =>
    rw [List.cons_append, List.cons_append, skipTrivia_closed (blockComment_followed hblock _)]
    exact ih h
  | case5 pos body stop rest hblock _ => cases h
  | case6 pos d rest hline hblock hblank => cases h

end Gaps

/-! ## Tokens before a newline -/

section Tokens

variable {pos : Nat} {c : Char} {cs : List Char}

theorem newline_not_mem_takeWhile {p : Char → Bool} (hp : p '\n' = false) (cs : List Char) :
    '\n' ∉ cs.takeWhile p := by
  intro hmem
  have hnewline := List.all_takeWhile (p := p) (l := cs)
  rw [List.all_eq_true] at hnewline
  exact Bool.false_ne_true (hp.symm.trans (hnewline _ hmem))

/-- A mark and digits have no newline in them. -/
theorem newline_not_mem_digits {d : Char} (mark : List Char) (hmark : '\n' ∉ mark) :
    '\n' ∉ if d.isDigit then mark ++ d :: cs.takeWhile isDigitChar else [] := by
  split
  · next hd =>
    have hdigit : '\n' ≠ d := by
      rintro rfl
      cases hd
    simp only [List.mem_append, List.mem_cons, hmark, hdigit,
      newline_not_mem_takeWhile (p := isDigitChar) rfl, or_self, not_false_eq_true]
  · exact List.not_mem_nil

theorem newline_not_mem_fractionLexeme (cs : List Char) : '\n' ∉ fractionLexeme cs := by
  unfold fractionLexeme
  split
  · exact newline_not_mem_digits ['.'] (by decide)
  · exact List.not_mem_nil

theorem newline_not_mem_exponentLexeme (cs : List Char) : '\n' ∉ exponentLexeme cs := by
  cases cs with
  | nil => exact List.not_mem_nil
  | cons e cs =>
    simp only [exponentLexeme]
    split
    · next he =>
      have hsign : '\n' ∉ signLexeme cs := by
        unfold signLexeme
        split <;> decide
      split
      · next d ds hdrop =>
        refine newline_not_mem_digits (e :: signLexeme cs) ?_
        rw [List.mem_cons, not_or]
        refine ⟨?_, hsign⟩
        rintro rfl
        revert he
        decide
      · exact List.not_mem_nil
    · exact List.not_mem_nil

theorem newline_not_mem_numberLexeme (cs : List Char) : '\n' ∉ numberLexeme cs := by
  simp only [numberLexeme, List.mem_append, not_or]
  exact ⟨⟨newline_not_mem_takeWhile rfl cs, newline_not_mem_fractionLexeme _⟩,
    newline_not_mem_exponentLexeme _⟩

theorem isIdentifierContinue_newline : Text.isIdentifierContinue '\n' = false := by decide +kernel

theorem Symbol.newline_not_mem (s : Symbol) : '\n' ∉ s.text.toList := by cases s <;> decide

theorem symbolAt?_rest {s : Symbol} (h : symbolAt? c cs = some s) :
    c :: cs = s.text.toList ++ cs.drop (s.text.length - 1) := by
  have hdrop : (c :: cs).drop s.text.toList.length = cs.drop (s.text.length - 1) := by
    rw [String.length_toList, ← Nat.sub_add_cancel s.byteLength_text.2,
      List.drop_succ_cons, Nat.add_sub_cancel]
  rw [← hdrop, List.prefix_iff_eq_append.1 (symbolAt?_starts h)]

/-- **Only a string can have a newline in it.** -/
theorem newline_left (pos : Nat) (cs post : List Char) (hblank : isBlank c = false)
    (hquote : ¬ (c = '"' ∨ c = '\'')) :
    '\n' :: post <:+ (scanToken pos c (cs ++ '\n' :: post)).rest := by
  have hc : '\n' ≠ c := by
    rintro rfl
    cases hblank
  cases hs : symbolAt? c (cs ++ '\n' :: post) with
  | some s =>
    simp only [scanToken, hs]
    have hchars : c :: cs ++ '\n' :: post = _ := symbolAt?_rest hs
    exact suffix_of_not_mem hchars s.newline_not_mem
  | none =>
    by_cases hdigit : c.isDigit = true
    · have hnumber :=
        (List.prefix_iff_eq_append.1 (numberLexeme_starts (c :: cs ++ '\n' :: post))).symm
      simp only [scanToken, hs, if_neg hquote, if_pos hdigit, scanNumber_rest]
      exact suffix_of_not_mem hnumber (newline_not_mem_numberLexeme _)
    · by_cases hword : Text.isIdentifierStart c = true
      · simp only [scanToken, hs, if_neg hquote, if_neg hdigit, if_pos hword]
        exact suffix_of_not_mem List.takeWhile_append_dropWhile.symm
          (newline_not_mem_takeWhile isIdentifierContinue_newline _)
      · simp only [scanToken, hs, if_neg hquote, if_neg hdigit, if_neg hword]
        exact List.suffix_append cs _

/-- **A token ends before a newline as it ends at the end of a text**, if it is no string without an
end. -/
theorem scanToken_newline (post : List Char) (hblank : isBlank c = false)
    (h : ∀ e ∈ (scanToken pos c cs).errors, e.val ≠ .unterminatedString) :
    scanToken pos c (cs ++ '\n' :: post) = (scanToken pos c cs).followedBy ('\n' :: post) := by
  by_cases hquote : c = '"' ∨ c = '\''
  · have hnone : ∀ cs, symbolAt? c cs = none := by
      obtain rfl | rfl := hquote <;> exact fun _ => rfl
    simp only [scanToken, hnone, if_pos hquote] at h ⊢
    have hclosed : (scanString c pos (pos + 1) cs).value ≠ none := fun hvalue =>
      h _ ((scanString_reads c pos (pos + 1) cs).reported hvalue) rfl
    rw [scanString_followed _ hclosed]
    rfl
  · exact scanToken_cut (newline_left pos cs post hblank hquote)

end Tokens

/-! ## Texts -/

section Texts

variable {pos : Nat} {cs : List Char}

/-- Only a comment without an end is an error in a gap. -/
theorem skipTrivia_errors (pos : Nat) (cs : List Char)
    (h : ∀ e ∈ (skipTrivia pos cs).errors, e.val ≠ .unterminatedComment) :
    (skipTrivia pos cs).errors = [] := by
  fun_induction skipTrivia pos cs with
  | case1 pos => rfl
  | case2 pos d cs hblank ih => exact ih h
  | case3 pos body stop rest hline _ _ ih => exact ih h
  | case4 pos body stop rest hblock _ _ ih => exact ih h
  | case5 pos body stop rest hblock _ => exact absurd rfl (h _ (List.mem_singleton.2 rfl))
  | case6 pos d rest hline hblock hblank => rfl

theorem scanFrom_congr {pos' : Nat} {cs' : List Char}
    (h : skipTrivia pos cs = skipTrivia pos' cs') : scanFrom pos cs = scanFrom pos' cs' := by
  cases hskip : skipTrivia pos' cs' with
  | mk errors start rest =>
    cases rest with
    | nil => rw [scanFrom_end (h.trans hskip), scanFrom_end hskip]
    | cons c rest => rw [scanFrom_token (h.trans hskip) rfl, scanFrom_token hskip rfl]

/-- **A newline parts a text**, whatever its first part is, as long as no string and no comment goes
on. -/
theorem scanFrom_newline (post : List Char)
    (h : ∀ e ∈ (scanFrom pos cs).errors, e.val ≠ .unterminatedString ∧
    e.val ≠ .unterminatedComment) :
    (scanFrom pos (cs ++ '\n' :: post)).words =
        (scanFrom pos cs).words ++ (scanFrom (pos + byteLength cs + 1) post).words ∧
      (scanFrom pos (cs ++ '\n' :: post)).errors =
        (scanFrom pos cs).errors ++ (scanFrom (pos + byteLength cs + 1) post).errors := by
  fun_induction scanFrom pos cs with
  | case1 pos cs errors start hskip =>
    have hpos := skipTrivia_pos pos cs
    have herrors := skipTrivia_errors pos cs
    rw [hskip] at hpos herrors
    obtain rfl : errors = [] := herrors fun e he => (h e he).2
    obtain rfl : start = pos + byteLength cs := hpos
    rw [scanFrom_congr (skipTrivia_newline_end post hskip)]
    exact ⟨rfl, rfl⟩
  | case2 pos cs errors start c rest hskip _ _ s tail ih =>
    have hpos := skipTrivia_pos pos cs
    rw [hskip, ← scanToken_pos start c rest] at hpos
    have hpos : s.pos + byteLength s.rest = pos + byteLength cs := hpos
    obtain ⟨hblank, rfl⟩ := skipTrivia_eq_cons hskip
    have htoken : scanToken start c (rest ++ '\n' :: post) =
        ⟨s.token, s.errors, s.pos, s.rest ++ '\n' :: post⟩ :=
      scanToken_newline post hblank fun e he => (h e (List.mem_append_left _ he)).1
    obtain ⟨hwords, herrors⟩ := ih fun e he => h e (List.mem_append_right _ he)
    rw [hpos] at hwords herrors
    rw [scanFrom_token (skipTrivia_newline_token post hskip) htoken]
    have hword : s.token ≠ .endOfInput := (scanToken_reads start c rest).token
    constructor
    · rw [Scan.words_cons hword, Scan.words_cons hword, List.cons_append]
      exact congrArg _ hwords
    · simp only [List.nil_append, List.append_assoc]
      exact congrArg (s.errors ++ ·) herrors

/-- **Scanning is compositional across a newline.** -/
theorem Token.scan_append_newline (s₁ s₂ : String)
    (h : ∀ e ∈ (Token.scan s₁).errors, e.val ≠ .unterminatedString ∧ e.val ≠ .unterminatedComment) :
    (Token.scan (s₁ ++ "\n" ++ s₂)).words =
        (Token.scan s₁).words ++ (Token.scan s₂).words.map (·.shift (s₁.utf8ByteSize + 1)) ∧
      (Token.scan (s₁ ++ "\n" ++ s₂)).errors =
        (Token.scan s₁).errors ++ (Token.scan s₂).errors.map (·.shift (s₁.utf8ByteSize + 1)) := by
  have htext : (s₁ ++ "\n" ++ s₂).toList = s₁.toList ++ '\n' :: s₂.toList := by simp
  have hsize : 0 + byteLength s₁.toList + 1 = 0 + (s₁.utf8ByteSize + 1) := by
    rw [← utf8ByteSize_ofList, String.ofList_toList]
    omega
  obtain ⟨hwords, herrors⟩ := scanFrom_newline s₂.toList h
  rw [hsize, scanFrom_add] at hwords herrors
  rw [Token.scan, htext, hwords, herrors]
  refine ⟨congrArg _ ?_, rfl⟩
  simp only [Scan.words, Scan.shift, List.filter_map]
  rfl

/-- The first text has errors of other kinds, and ends in what the second would make a number with
an exponent. -/
theorem Token.scan_append_newline_exponent :
    (Token.scan ("'\\q' # 1e" ++ "\n" ++ "5 /* y")).words =
        [⟨⟨0, 4⟩, .string "q"⟩, ⟨⟨5, 6⟩, .invalid⟩, ⟨⟨7, 8⟩, .number (.ofNat 1)⟩,
          ⟨⟨8, 9⟩, .identifier "e"⟩, ⟨⟨10, 11⟩, .number (.ofNat 5)⟩] ∧
      (Token.scan ("'\\q' # 1e" ++ "\n" ++ "5 /* y")).errors =
        [⟨⟨1, 3⟩, .unknownEscape 'q'⟩, ⟨⟨5, 6⟩, .unexpectedCharacter '#'⟩,
          ⟨⟨12, 16⟩, .unterminatedComment⟩] := by
  have h := Token.scan_append_newline "'\\q' # 1e" "5 /* y" (by decide +kernel)
  exact ⟨h.1.trans (by decide +kernel), h.2.trans (by decide +kernel)⟩

end Texts

end Stackscript
