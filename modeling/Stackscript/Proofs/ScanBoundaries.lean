import Stackscript.Proofs.ScanLossless

/-!
# Where tokens end

A token and a gap are read from left to right, and each reader looks at some characters behind its
end. What is read does not depend on the offset at which the text begins, nor on what stands behind
it: if a token or a gap ends before some last part of the text, then it ends there without that part
too. So a piece of a text that is cut at the ends of tokens has the tokens that it has in the text.

* `skipTrivia_blank` and so on, `scanString_quote` and so on, `scanFrom_token`: one step of each
  reader;
* `Located.shift`, `Scan.shift`, **`scanFrom_add`**: texts that are moved;
* `skipTrivia_cut`, `scanString_cut`, `numberLexeme_cut`, **`scanToken_cut`**: texts that are cut
  off;
* `Scan.words`, `scanFrom_part`, `scanFrom_resume`: parts of a text.
-/

namespace Stackscript

/-! ## Gaps, step by step -/

/-- The character, with others behind it, begins a comment. -/
def opensComment (c : Char) (cs : List Char) : Bool :=
  c == '/' && (cs.head? == some '/' || cs.head? == some '*')

section skipTrivia

variable {pos stop : Nat} {c : Char} {cs body rest : List Char}

theorem skipTrivia_nil : skipTrivia pos [] = ⟨[], pos, []⟩ := by rw [skipTrivia]

theorem skipTrivia_blank (h : isBlank c = true) :
    skipTrivia pos (c :: cs) = skipTrivia (pos + c.utf8Size) cs := by
  rw [skipTrivia.eq_def]
  simp only [if_pos h]

theorem skipTrivia_line : skipTrivia pos ('/' :: '/' :: body) =
    skipTrivia (lineComment (pos + 2) body).1 (lineComment (pos + 2) body).2 := by
  rw [skipTrivia]
  rfl

theorem skipTrivia_closed (h : blockComment (pos + 2) ' ' body = (true, stop, rest)) :
    skipTrivia pos ('/' :: '*' :: body) = skipTrivia stop rest := by
  rw [skipTrivia, if_neg (by decide)]
  split
  · next h' => cases h.symm.trans h'; rfl
  · next h' => cases h.symm.trans h'

theorem skipTrivia_open (h : blockComment (pos + 2) ' ' body = (false, stop, rest)) :
    skipTrivia pos ('/' :: '*' :: body) = ⟨[⟨⟨pos, stop⟩, .unterminatedComment⟩], stop, []⟩ := by
  rw [skipTrivia, if_neg (by decide)]
  split
  · next h' => cases h.symm.trans h'
  · next h' => cases h.symm.trans h'; rfl

theorem skipTrivia_token (hblank : isBlank c = false) (hcomment : opensComment c cs = false) :
    skipTrivia pos (c :: cs) = ⟨[], pos, c :: cs⟩ := by
  rw [skipTrivia.eq_def]
  simp only [hblank, Bool.false_eq_true, if_false]
  split
  · cases hcomment
  · cases hcomment
  · rfl

theorem opensComment_eq_false (hline : ∀ body, c = '/' → cs = '/' :: body → False)
    (hblock : ∀ body, c = '/' → cs = '*' :: body → False) : opensComment c cs = false := by
  rw [Bool.eq_false_iff]
  intro h
  simp only [opensComment, Bool.and_eq_true, Bool.or_eq_true, beq_iff_eq,
    List.head?_eq_some_iff] at h
  obtain ⟨hc, ⟨body, hcs⟩ | ⟨body, hcs⟩⟩ := h
  · exact hline body hc hcs
  · exact hblock body hc hcs

end skipTrivia

/-! ## Strings and texts, step by step -/

section scanString

variable {quote c e v : Char} {start pos : Nat} {cs : List Char}

theorem scanString_quote :
    scanString quote start pos (quote :: cs) = ⟨some [], [], pos + quote.utf8Size, cs⟩ := by
  rw [scanString.eq_def]
  simp only [if_true]

/-- The text ends with a backslash. -/
theorem scanString_backslash (h : '\\' ≠ quote) :
    scanString quote start pos ['\\'] =
      ⟨none, [⟨⟨start, pos + 1⟩, .unterminatedString⟩], pos + 1, []⟩ := by
  rw [scanString.eq_def]
  simp only [if_neg h, if_true]
  rfl

theorem scanString_escape (h : '\\' ≠ quote) (hv : escapeValue? e = some v) :
    scanString quote start pos ('\\' :: e :: cs) =
      (scanString quote start (pos + 1 + e.utf8Size) cs).prepend v [] := by
  rw [scanString.eq_def]
  simp only [if_neg h, if_true, hv]
  rfl

theorem scanString_unknown (h : '\\' ≠ quote) (hv : escapeValue? e = none) :
    scanString quote start pos ('\\' :: e :: cs) =
      (scanString quote start (pos + 1 + e.utf8Size) cs).prepend e
        [⟨⟨pos, pos + 1 + e.utf8Size⟩, .unknownEscape e⟩] := by
  rw [scanString.eq_def]
  simp only [if_neg h, if_true, hv]
  rfl

theorem scanString_char (h : c ≠ quote) (hescape : c ≠ '\\') :
    scanString quote start pos (c :: cs) =
      (scanString quote start (pos + c.utf8Size) cs).prepend c [] := by
  rw [scanString.eq_def]
  simp only [if_neg h, if_neg hescape]

end scanString

section scanFrom

variable {pos start : Nat} {c : Char} {cs rest : List Char} {errors : List (Located LexError)}

theorem scanFrom_end (h : skipTrivia pos cs = ⟨errors, start, []⟩) :
    scanFrom pos cs = ⟨[⟨⟨start, start⟩, .endOfInput⟩], errors⟩ := by
  rw [scanFrom]
  split
  · next h' => cases h.symm.trans h'; rfl
  · next h' => cases h.symm.trans h'

theorem scanFrom_token {s : Scanned} (h : skipTrivia pos cs = ⟨errors, start, c :: rest⟩)
    (hs : scanToken start c rest = s) :
    scanFrom pos cs = ⟨⟨⟨start, s.pos⟩, s.token⟩ :: (scanFrom s.pos s.rest).tokens,
      errors ++ s.errors ++ (scanFrom s.pos s.rest).errors⟩ := by
  subst hs
  rw [scanFrom]
  split
  · next h' => cases h.symm.trans h'
  · next h' => cases h.symm.trans h'; rfl

end scanFrom

/-! ## Moved texts -/

/-- The value at a place that is `n` bytes further on. -/
def Located.shift {α : Type} (n : Nat) (a : Located α) : Located α := ⟨a.span.shift n, a.val⟩

def Skipped.shift (n : Nat) (s : Skipped) : Skipped := ⟨s.errors.map (·.shift n), s.pos + n, s.rest⟩

def StringScan.shift (n : Nat) (s : StringScan) : StringScan :=
  ⟨s.value, s.errors.map (·.shift n), s.pos + n, s.rest⟩

def Scanned.shift (n : Nat) (s : Scanned) : Scanned :=
  ⟨s.token, s.errors.map (·.shift n), s.pos + n, s.rest⟩

/-- The scan of a text that begins `n` bytes further on. -/
def Scan.shift (n : Nat) (s : Scan) : Scan := ⟨s.tokens.map (·.shift n), s.errors.map (·.shift n)⟩

theorem lineComment_add (n pos : Nat) (cs : List Char) :
    lineComment (pos + n) cs = ((lineComment pos cs).1 + n, (lineComment pos cs).2) := by
  induction cs generalizing pos with
  | nil => rfl
  | cons c cs ih =>
    rw [lineComment, lineComment]
    split
    · rfl
    · rw [Nat.add_right_comm]
      exact ih (pos + c.utf8Size)

theorem blockComment_add (n pos : Nat) (prev : Char) (cs : List Char) :
    blockComment (pos + n) prev cs =
      ((blockComment pos prev cs).1, (blockComment pos prev cs).2.1 + n,
        (blockComment pos prev cs).2.2) := by
  induction cs generalizing pos prev with
  | nil => rfl
  | cons c cs ih =>
    rw [blockComment, blockComment, Nat.add_right_comm]
    split
    · rfl
    · exact ih (pos + c.utf8Size) c

theorem skipTrivia_add (n pos : Nat) (cs : List Char) :
    skipTrivia (pos + n) cs = (skipTrivia pos cs).shift n := by
  fun_induction skipTrivia pos cs with
  | case1 pos => exact skipTrivia_nil
  | case2 pos c cs hblank ih =>
    rw [skipTrivia_blank hblank, Nat.add_right_comm]
    exact ih
  | case3 pos body stop rest hline _ _ ih =>
    rw [skipTrivia_line, Nat.add_right_comm, lineComment_add, hline]
    exact ih
  | case4 pos body stop rest hblock _ _ ih =>
    have hmoved := blockComment_add n (pos + 2) ' ' body
    rw [hblock, Nat.add_right_comm] at hmoved
    rw [skipTrivia_closed hmoved]
    exact ih
  | case5 pos body stop rest hblock _ =>
    have hmoved := blockComment_add n (pos + 2) ' ' body
    rw [hblock, Nat.add_right_comm] at hmoved
    exact skipTrivia_open hmoved
  | case6 pos c rest hline hblock hblank =>
    exact skipTrivia_token (Bool.eq_false_iff.2 hblank) (opensComment_eq_false hline hblock)

theorem StringScan.shift_prepend (n : Nat) (c : Char) (errors : List (Located LexError))
    (s : StringScan) :
    (s.prepend c errors).shift n = (s.shift n).prepend c (errors.map (·.shift n)) := by
  simp [StringScan.shift, StringScan.prepend]

theorem scanString_add (n : Nat) (quote : Char) (start pos : Nat) (cs : List Char) :
    scanString quote (start + n) (pos + n) cs = (scanString quote start pos cs).shift n := by
  fun_induction scanString quote start pos cs with
  | case1 pos => rfl
  | case2 pos cs next => rw [scanString_quote, Nat.add_right_comm]; rfl
  | case3 pos next hquote => rw [scanString_backslash hquote, Nat.add_right_comm]; rfl
  | case4 pos e cs v hv next hquote stop ih =>
    rw [scanString_escape hquote hv, Nat.add_right_comm pos, Nat.add_right_comm _ n,
      StringScan.shift_prepend]
    exact congrArg _ ih
  | case5 pos e cs hv next hquote stop ih =>
    rw [scanString_unknown hquote hv, Nat.add_right_comm pos, Nat.add_right_comm _ n,
      StringScan.shift_prepend]
    exact congrArg _ ih
  | case6 pos c cs next hquote hescape ih =>
    rw [scanString_char hquote hescape, Nat.add_right_comm, StringScan.shift_prepend]
    exact congrArg _ ih

theorem scanNumber_add (n pos : Nat) (cs : List Char) :
    scanNumber (pos + n) cs = (scanNumber pos cs).shift n := by
  simp only [scanNumber, Nat.add_right_comm pos n]
  split <;> rfl

theorem scanToken_add (n pos : Nat) (c : Char) (cs : List Char) :
    scanToken (pos + n) c cs = (scanToken pos c cs).shift n := by
  simp only [scanToken, Nat.add_right_comm pos n]
  split
  · rfl
  · split
    · rw [scanString_add]
      rfl
    · split
      · exact scanNumber_add n pos _
      · split
        · rw [scanWord, Nat.add_right_comm]
          rfl
        · rfl

/-- **The offset at which a text begins only moves its scan.** -/
theorem scanFrom_add (n pos : Nat) (cs : List Char) :
    scanFrom (pos + n) cs = (scanFrom pos cs).shift n := by
  fun_induction scanFrom pos cs with
  | case1 pos cs errors start hskip =>
    have hmoved := skipTrivia_add n pos cs
    rw [hskip] at hmoved
    exact scanFrom_end hmoved
  | case2 pos cs errors start c rest hskip _ _ s tail ih =>
    have hmoved := skipTrivia_add n pos cs
    rw [hskip] at hmoved
    rw [scanFrom_token hmoved (scanToken_add n start c rest)]
    have ih : scanFrom (s.pos + n) s.rest = tail.shift n := ih
    simp only [Scanned.shift, Scan.shift, List.map_append, List.map_cons]
    rw [show (scanToken start c rest) = s from rfl, ih]
    rfl

/-! ## More text behind -/

/-- The same, with more characters behind those that are left. -/
def StringScan.followedBy (s : StringScan) (post : List Char) : StringScan :=
  { s with rest := s.rest ++ post }

/-- The same, with more characters behind those that are left. -/
def Scanned.followedBy (s : Scanned) (post : List Char) : Scanned :=
  { s with rest := s.rest ++ post }

/-- If a character was not passed over, then all behind it is left. -/
theorem suffix_of_not_mem {x : Char} {cs post lexeme rest : List Char}
    (h : cs ++ x :: post = lexeme ++ rest) (hx : x ∉ lexeme) : x :: post <:+ rest := by
  obtain ⟨mid, rfl, hmid⟩ | ⟨mid, rfl, hmid⟩ := List.append_eq_append_iff.1 h
  · cases mid with
    | nil => exact ⟨[], hmid⟩
    | cons y mid =>
      cases hmid
      simp at hx
  · exact ⟨mid, hmid.symm⟩

theorem eq_nil_of_append_suffix (cs post : List Char) (h : cs ++ post <:+ post) : cs = [] := by
  have := h.length_le
  rw [List.length_append] at this
  exact List.eq_nil_of_length_eq_zero (by omega)

section Comments

variable {pos stop start : Nat} {prev c : Char} {cs post rest r : List Char}
  {errors : List (Located LexError)}

theorem lineComment_cut (h : post <:+ (lineComment pos (cs ++ post)).2) :
    lineComment pos (cs ++ post) = ((lineComment pos cs).1, (lineComment pos cs).2 ++ post) := by
  induction cs generalizing pos with
  | nil =>
    obtain ⟨body, hpost, hstop, -, -⟩ := lineComment_spec pos post
    obtain rfl : body = [] := by
      refine eq_nil_of_append_suffix body (lineComment pos post).2 ?_
      rwa [← hpost]
    exact Prod.ext hstop hpost.symm
  | cons c cs ih =>
    rw [List.cons_append, lineComment] at h ⊢
    rw [lineComment]
    split
    · rfl
    · next hc =>
      rw [if_neg hc] at h
      exact ih h

theorem blockComment_followed (h : blockComment pos prev cs = (true, stop, rest))
    (post : List Char) : blockComment pos prev (cs ++ post) = (true, stop, rest ++ post) := by
  induction cs generalizing pos prev with
  | nil => cases h
  | cons c cs ih =>
    rw [blockComment] at h
    rw [List.cons_append, blockComment]
    split
    · next hc =>
      rw [if_pos hc] at h
      cases h
      rfl
    · next hc =>
      rw [if_neg hc] at h
      exact ih h

theorem blockComment_cut (h : blockComment pos prev (cs ++ post) = (true, stop, r ++ post)) :
    blockComment pos prev cs = (true, stop, r) := by
  induction cs generalizing pos prev with
  | nil =>
    obtain ⟨body, hpost, -⟩ := blockComment_closed h
    have := congrArg List.length hpost
    simp only [List.nil_append, List.length_append, List.length_cons] at this
    omega
  | cons c cs ih =>
    rw [List.cons_append, blockComment] at h
    rw [blockComment]
    split
    · next hc =>
      rw [if_pos hc] at h
      obtain ⟨-, hstop, hrest⟩ : true = true ∧ pos + c.utf8Size = stop ∧
        cs ++ post = r ++ post := by simpa using h
      rw [hstop, List.append_cancel_right hrest]
    · next hc =>
      rw [if_neg hc] at h
      exact ih h

/-- What is left is the end of the text. -/
theorem skipTrivia_suffix (pos : Nat) (cs : List Char) : (skipTrivia pos cs).rest <:+ cs := by
  cases skipTrivia_spec pos cs with
  | trivia hcs _ _ => exact ⟨_, hcs.symm⟩
  | unclosed hrest _ _ => rw [hrest]; exact List.nil_suffix

/-- A comment is passed over with both of its first characters. -/
theorem skipTrivia_comment (pos : Nat) (h : opensComment c cs = true) :
    (skipTrivia pos (c :: cs)).rest <:+ cs.tail := by
  simp only [opensComment, Bool.and_eq_true, Bool.or_eq_true, beq_iff_eq,
    List.head?_eq_some_iff] at h
  obtain ⟨rfl, ⟨body, rfl⟩ | ⟨body, rfl⟩⟩ := h
  · obtain ⟨text, hbody, -⟩ := lineComment_spec (pos + 2) body
    rw [skipTrivia_line]
    exact (skipTrivia_suffix _ _).trans ⟨text, hbody.symm⟩
  · cases hblock : blockComment (pos + 2) ' ' body with
    | mk closed after =>
      cases closed with
      | true =>
        obtain ⟨text, hbody, -⟩ := closedComment_spec hblock
        rw [skipTrivia_closed hblock]
        exact (skipTrivia_suffix _ _).trans ⟨text, hbody.symm⟩
      | false =>
        rw [skipTrivia_open hblock]
        exact List.nil_suffix

/-- A comment that is not closed before what is left could only be closed in it. -/
theorem skipTrivia_unclosed {body : List Char}
    (hblock : (blockComment (pos + 2) ' ' body).1 = false) :
    skipTrivia pos ('/' :: '*' :: (body ++ post)) ≠ ⟨errors, start, c :: (r ++ post)⟩ := by
  intro h
  cases hlong : blockComment (pos + 2) ' ' (body ++ post) with
  | mk closed after =>
    cases closed with
    | true =>
      rw [skipTrivia_closed hlong] at h
      have hsuffix := skipTrivia_suffix after.1 after.2
      rw [h] at hsuffix
      obtain ⟨mid, hmid⟩ := (List.suffix_append (c :: r) post).trans hsuffix
      rw [show after = (after.1, mid ++ post) by rw [hmid]] at hlong
      rw [blockComment_cut hlong] at hblock
      cases hblock
    | false =>
      rw [skipTrivia_open hlong] at h
      cases h

/-- A comment does not begin with the last character before what is left. -/
theorem opensComment_append_eq_false {d : Char} (hcomment : opensComment d cs = false)
    (h : skipTrivia pos (d :: (cs ++ post)) = ⟨errors, start, c :: (r ++ post)⟩) :
    opensComment d (cs ++ post) = false := by
  cases cs with
  | cons x cs => exact hcomment
  | nil =>
    by_contra hlong
    rw [Bool.not_eq_false] at hlong
    have hsuffix := skipTrivia_comment pos hlong
    rw [h, List.nil_append] at hsuffix
    cases eq_nil_of_append_suffix (c :: r) post (hsuffix.trans (List.tail_suffix post))

/-- **Blanks and comments are skipped alike without what stands behind a token.** -/
theorem skipTrivia_cut (h : skipTrivia pos (cs ++ post) = ⟨errors, start, c :: (r ++ post)⟩) :
    skipTrivia pos cs = ⟨errors, start, c :: r⟩ := by
  fun_induction skipTrivia pos cs with
  | case1 pos =>
    have hsuffix := skipTrivia_suffix pos post
    rw [List.nil_append] at h
    rw [h] at hsuffix
    cases eq_nil_of_append_suffix (c :: r) post hsuffix
  | case2 pos c cs hblank ih =>
    rw [List.cons_append, skipTrivia_blank hblank] at h
    exact ih h
  | case3 pos body stop rest hline _ _ ih =>
    rw [List.cons_append, List.cons_append, skipTrivia_line] at h
    have hsuffix :=
      skipTrivia_suffix (lineComment (pos + 2) (body ++ post)).1
        (lineComment (pos + 2) (body ++ post)).2
    rw [h] at hsuffix
    rw [lineComment_cut ((List.suffix_append (c :: r) post).trans hsuffix), hline] at h
    exact ih h
  | case4 pos body stop rest hblock _ _ ih =>
    rw [List.cons_append, List.cons_append,
      skipTrivia_closed (blockComment_followed hblock post)] at h
    exact ih h
  | case5 pos body stop rest hblock _ =>
    exact absurd h (skipTrivia_unclosed (congrArg Prod.fst hblock))
  | case6 pos d rest hline hblock hblank =>
    rw [List.cons_append] at h
    have hcomment := opensComment_append_eq_false (opensComment_eq_false hline hblock) h
    rw [skipTrivia_token (Bool.eq_false_iff.2 hblank) hcomment] at h
    simp only [Skipped.mk.injEq, List.cons.injEq] at h
    obtain ⟨rfl, rfl, rfl, hrest⟩ := h
    rw [List.append_cancel_right hrest]

end Comments

section Strings

variable {quote : Char} {start pos : Nat} {cs post : List Char}

/-- Nothing behind a string that is closed is looked at. -/
theorem scanString_followed (post : List Char) (h : (scanString quote start pos cs).value ≠ none) :
    scanString quote start pos (cs ++ post) = (scanString quote start pos cs).followedBy post := by
  fun_induction scanString quote start pos cs with
  | case1 pos => exact absurd rfl h
  | case2 pos cs next => exact scanString_quote
  | case3 pos next hquote => exact absurd rfl h
  | case4 pos e cs v hv next hquote stop ih =>
    rw [List.cons_append, List.cons_append, scanString_escape hquote hv]
    exact congrArg (StringScan.prepend v [])
      (ih fun hnone => h (by rw [StringScan.prepend, hnone]; rfl))
  | case5 pos e cs hv next hquote stop ih =>
    rw [List.cons_append, List.cons_append, scanString_unknown hquote hv]
    exact congrArg (StringScan.prepend e _)
      (ih fun hnone => h (by rw [StringScan.prepend, hnone]; rfl))
  | case6 pos c cs next hquote hescape ih =>
    rw [List.cons_append, scanString_char hquote hescape]
    exact congrArg (StringScan.prepend c [])
      (ih fun hnone => h (by rw [StringScan.prepend, hnone]; rfl))

/-- A string has its closing quote, or goes on to the end of the text. -/
theorem length_scanString_lt (quote : Char) (start pos : Nat) (c : Char) (cs : List Char) :
    (scanString quote start pos (c :: cs)).rest.length ≤ cs.length := by
  by_cases hquote : c = quote
  · rw [hquote, scanString_quote]
  · by_cases hescape : c = '\\'
    · subst hescape
      cases cs with
      | nil => rw [scanString_backslash hquote]
      | cons e cs =>
        have hle := length_scanString_le quote start (pos + 1 + e.utf8Size) cs
        cases hv : escapeValue? e with
        | some v => rw [scanString_escape hquote hv]; exact Nat.le_succ_of_le hle
        | none => rw [scanString_unknown hquote hv]; exact Nat.le_succ_of_le hle
    · rw [scanString_char hquote hescape]
      exact length_scanString_le _ _ _ cs

/-- A string that is not closed goes on into what stands behind it. -/
theorem scanString_unclosed (h : (scanString quote start pos cs).value = none) (hpost : post ≠ []) :
    (scanString quote start pos (cs ++ post)).rest.length < post.length := by
  obtain ⟨p, ps, rfl⟩ := List.exists_cons_of_ne_nil hpost
  fun_induction scanString quote start pos cs with
  | case1 pos => exact Nat.lt_succ_of_le (length_scanString_lt quote start pos p ps)
  | case2 pos cs next => cases h
  | case3 pos next hquote =>
    have hle := length_scanString_le quote start (pos + 1 + p.utf8Size) ps
    rw [List.singleton_append]
    cases hv : escapeValue? p with
    | some v => rw [scanString_escape hquote hv]; exact Nat.lt_succ_of_le hle
    | none => rw [scanString_unknown hquote hv]; exact Nat.lt_succ_of_le hle
  | case4 pos e cs v hv next hquote stop ih =>
    rw [List.cons_append, List.cons_append, scanString_escape hquote hv]
    exact ih (Option.map_eq_none_iff.1 h)
  | case5 pos e cs hv next hquote stop ih =>
    rw [List.cons_append, List.cons_append, scanString_unknown hquote hv]
    exact ih (Option.map_eq_none_iff.1 h)
  | case6 pos c cs next hquote hescape ih =>
    rw [List.cons_append, scanString_char hquote hescape]
    exact ih (Option.map_eq_none_iff.1 h)

theorem scanString_cut (h : post <:+ (scanString quote start pos (cs ++ post)).rest) :
    scanString quote start pos (cs ++ post) = (scanString quote start pos cs).followedBy post := by
  by_cases hvalue : (scanString quote start pos cs).value = none
  · by_cases hpost : post = []
    · subst hpost
      simp [StringScan.followedBy]
    · have hlt := scanString_unclosed hvalue hpost
      have hle := h.length_le
      omega
  · exact scanString_followed post hvalue

end Strings

section Lexemes

variable {p : Char → Bool} {c : Char} {cs post : List Char}

theorem takeWhile_cut (h : (cs ++ post).takeWhile p <+: cs) :
    (cs ++ post).takeWhile p = cs.takeWhile p ∧
      (cs ++ post).dropWhile p = cs.dropWhile p ++ post := by
  induction cs with
  | nil =>
    have hnil := List.prefix_nil.1 h
    have hpost := List.takeWhile_append_dropWhile (p := p) (l := post)
    rw [List.nil_append] at hnil ⊢
    rw [hnil, List.nil_append] at hpost
    exact ⟨hnil, hpost⟩
  | cons d cs ih =>
    rw [List.cons_append, List.takeWhile_cons, List.takeWhile_cons, List.dropWhile_cons,
      List.dropWhile_cons] at *
    split
    · next hd =>
      rw [if_pos hd, List.cons_prefix_cons] at h
      exact ⟨congrArg _ (ih h.2).1, (ih h.2).2⟩
    · exact ⟨rfl, rfl⟩

/-- Digits behind a mark, one at least. -/
theorem digits_cut {d : Char} (mark : List Char)
    (h : (if d.isDigit then mark ++ d :: (cs ++ post).takeWhile isDigitChar else []) <+: mark ++
    d :: cs) :
    (if d.isDigit then mark ++ d :: (cs ++ post).takeWhile isDigitChar else []) =
      if d.isDigit then mark ++ d :: cs.takeWhile isDigitChar else [] := by
  split
  · next hd =>
    rw [if_pos hd, List.prefix_append_right_inj, List.cons_prefix_cons] at h
    rw [(takeWhile_cut h.2).1]
  · rfl

/-- A mark alone is no lexeme. -/
theorem digits_missing {d : Char} {digits : List Char} (mark : List Char)
    (h : (if d.isDigit then mark ++ d :: digits else []) <+: cs) (hle : cs.length ≤ mark.length) :
    (if d.isDigit then mark ++ d :: digits else []) = [] := by
  split
  · next hd =>
    rw [if_pos hd] at h
    have := h.length_le
    rw [List.length_append, List.length_cons] at this
    omega
  · rfl

theorem fractionLexeme_of_ne (h : c ≠ '.') : fractionLexeme (c :: cs) = [] := by
  unfold fractionLexeme
  split
  · next heq =>
    cases heq
    exact absurd rfl h
  · rfl

theorem fractionLexeme_cut (h : fractionLexeme (cs ++ post) <+: cs) :
    fractionLexeme (cs ++ post) = fractionLexeme cs := by
  cases cs with
  | nil => exact List.prefix_nil.1 h
  | cons c cs =>
    by_cases hc : c = '.'
    · subst hc
      cases cs with
      | nil =>
        cases post with
        | nil => rfl
        | cons d post => exact digits_missing ['.'] h (Nat.le_refl 1)
      | cons d cs => exact digits_cut ['.'] h
    · rw [List.cons_append, fractionLexeme_of_ne hc, fractionLexeme_of_ne hc]

/-- An exponent without a sign. -/
theorem exponentLexeme_plain {e d : Char} (he : e = 'e' ∨ e = 'E') (hd : ¬ (d = '+' ∨ d = '-')) :
    exponentLexeme (e :: d :: cs) = if d.isDigit then [e] ++ d ::
      cs.takeWhile isDigitChar else [] := by
  have hsign : signLexeme (d :: cs) = [] := by
    unfold signLexeme
    split
    · next h => cases h; exact absurd (.inl rfl) hd
    · next h => cases h; exact absurd (.inr rfl) hd
    · rfl
  simp only [exponentLexeme, if_pos he, hsign]
  rfl

/-- An exponent with a sign. -/
theorem exponentLexeme_signed {e s d : Char} (he : e = 'e' ∨ e = 'E') (hs : s = '+' ∨ s = '-') :
    exponentLexeme (e :: s :: d :: cs) = if d.isDigit then [e, s] ++ d ::
      cs.takeWhile isDigitChar else [] := by
  have hsign : signLexeme (s :: d :: cs) = [s] := by obtain rfl | rfl := hs <;> rfl
  simp only [exponentLexeme, if_pos he, hsign]
  rfl

/-- A letter alone is no exponent, nor is a letter with a sign. -/
theorem exponentLexeme_mark {e s : Char} (hs : s = '+' ∨ s = '-') :
    exponentLexeme [e] = [] ∧ exponentLexeme [e, s] = [] := by
  obtain rfl | rfl := hs <;> simp [exponentLexeme, signLexeme]

theorem exponentLexeme_missing {e : Char} (he : e = 'e' ∨ e = 'E')
    (h : exponentLexeme (e :: post) <+: [e]) : exponentLexeme (e :: post) = [] := by
  cases post with
  | nil => exact (exponentLexeme_mark (.inl rfl)).1
  | cons d post =>
    by_cases hd : d = '+' ∨ d = '-'
    · cases post with
      | nil => exact (exponentLexeme_mark hd).2
      | cons d' post =>
        rw [exponentLexeme_signed he hd] at h ⊢
        exact digits_missing _ h (Nat.le_succ 1)
    · rw [exponentLexeme_plain he hd] at h ⊢
      exact digits_missing _ h (Nat.le_refl 1)

theorem exponentLexeme_missing_signed {e s : Char} (he : e = 'e' ∨ e = 'E') (hs : s = '+' ∨ s = '-')
    (h : exponentLexeme (e :: s :: post) <+: [e, s]) : exponentLexeme (e :: s :: post) = [] := by
  cases post with
  | nil => exact (exponentLexeme_mark hs).2
  | cons d post =>
    rw [exponentLexeme_signed he hs] at h ⊢
    exact digits_missing _ h (Nat.le_refl 2)

theorem exponentLexeme_cut (h : exponentLexeme (cs ++ post) <+: cs) :
    exponentLexeme (cs ++ post) = exponentLexeme cs := by
  cases cs with
  | nil => exact List.prefix_nil.1 h
  | cons e cs =>
    by_cases he : e = 'e' ∨ e = 'E'
    · cases cs with
      | nil => exact (exponentLexeme_missing he h).trans (exponentLexeme_mark (.inl rfl)).1.symm
      | cons d cs =>
        by_cases hd : d = '+' ∨ d = '-'
        · cases cs with
          | nil =>
            exact (exponentLexeme_missing_signed he hd h).trans (exponentLexeme_mark hd).2.symm
          | cons d' cs =>
            simp only [List.cons_append] at h ⊢
            rw [exponentLexeme_signed he hd] at h ⊢
            rw [exponentLexeme_signed he hd]
            exact digits_cut _ h
        · simp only [List.cons_append] at h ⊢
          rw [exponentLexeme_plain he hd] at h ⊢
          rw [exponentLexeme_plain he hd]
          exact digits_cut _ h
    · simp only [List.cons_append, exponentLexeme, if_neg he]

/-- **A number ends where it ends without what stands behind it.** -/
theorem numberLexeme_cut (h : numberLexeme (cs ++ post) <+: cs) :
    numberLexeme (cs ++ post) = numberLexeme cs := by
  have hcs : cs = cs.takeWhile isDigitChar ++ cs.dropWhile isDigitChar :=
    List.takeWhile_append_dropWhile.symm
  simp only [numberLexeme, List.append_assoc] at h ⊢
  obtain ⟨hwhole, hrest⟩ := takeWhile_cut ((List.prefix_append _ _).trans h)
  rw [hwhole, hrest] at h ⊢
  conv at h => rhs; rw [hcs]
  rw [List.prefix_append_right_inj] at h
  generalize cs.dropWhile isDigitChar = rest at h ⊢
  have hfraction := fractionLexeme_cut ((List.prefix_append _ _).trans h)
  rw [hfraction] at h ⊢
  have hdrop : (rest ++ post).drop (fractionLexeme rest).length =
      rest.drop (fractionLexeme rest).length ++ post :=
    List.drop_append_of_le_length (fractionLexeme_starts rest).length_le
  rw [hdrop] at h ⊢
  conv at h => rhs; rw [← List.prefix_iff_eq_append.1 (fractionLexeme_starts rest)]
  rw [List.prefix_append_right_inj] at h
  rw [exponentLexeme_cut h]

theorem drop_append_of_starts {lexeme : List Char} (h : lexeme <+: cs) (post : List Char) :
    (cs ++ post).drop lexeme.length = cs.drop lexeme.length ++ post :=
  List.drop_append_of_le_length h.length_le

/-- Only the character behind the first one is looked at. -/
theorem symbolAt?_append (h : cs ≠ []) (post : List Char) :
    symbolAt? c (cs ++ post) = symbolAt? c cs := by
  simp only [symbolAt?, List.head?_append_of_ne_nil _ h]

/-- A symbol of one character is looked at alone. -/
theorem symbolAt?_single {s : Symbol} (h : symbolAt? c cs = some s) (hlength : s.text.length ≤ 1) :
    symbolAt? c [] = some s := by
  have horEqual : ∀ {longer shorter : Symbol}, 1 < longer.text.length →
      some (if cs.head? = some '=' then longer else shorter) = some s → some shorter = some s := by
    intro longer shorter hlonger hs
    split at hs
    · cases hs
      omega
    · exact hs
  simp only [symbolAt?] at h
  split at h
  all_goals first
    | exact horEqual (by decide) h
    | exact h
    | cases h

theorem symbolAt?_eq_none (h : symbolAt? c cs = none) (ds : List Char) : symbolAt? c ds = none := by
  simp only [symbolAt?] at h ⊢
  split at h
  all_goals first
    | rfl
    | cases h

/-- A lexeme behind which everything is left does not reach into what stands behind. -/
theorem starts_of_suffix {lexeme : List Char} (h : lexeme <+: cs ++ post)
    (hrest : post <:+ (cs ++ post).drop lexeme.length) : lexeme <+: cs := by
  refine List.prefix_of_prefix_length_le h (List.prefix_append cs post) ?_
  have hwhole := h.length_le
  have hleft := hrest.length_le
  rw [List.length_drop] at hleft
  rw [List.length_append] at hwhole hleft
  omega

end Lexemes

section Tokens

variable {pos : Nat} {c : Char} {cs post : List Char}

theorem scanSymbol_cut {s : Symbol} (hs : symbolAt? c (cs ++ post) = some s)
    (h : post <:+ (cs ++ post).drop (s.text.length - 1)) :
    symbolAt? c cs = some s ∧ (cs ++ post).drop (s.text.length - 1) =
      cs.drop (s.text.length - 1) ++ post := by
  by_cases hpost : post = []
  · subst hpost
    rw [List.append_nil, List.append_nil] at *
    exact ⟨hs, rfl⟩
  · have hleft := h.length_le
    have hne := List.length_pos_of_ne_nil hpost
    rw [List.length_drop, List.length_append] at hleft
    have hle : s.text.length - 1 ≤ cs.length := by omega
    refine ⟨?_, List.drop_append_of_le_length hle⟩
    by_cases hcs : cs = []
    · subst hcs
      exact symbolAt?_single hs (Nat.le_of_sub_eq_zero (Nat.le_zero.1 hle))
    · rwa [symbolAt?_append hcs] at hs

theorem scanNumber_rest (pos : Nat) (cs : List Char) :
    (scanNumber pos cs).rest = cs.drop (numberLexeme cs).length := by
  simp only [scanNumber]
  split <;> rfl

theorem scanNumber_cut (h : post <:+ (scanNumber pos (cs ++ post)).rest) :
    scanNumber pos (cs ++ post) = (scanNumber pos cs).followedBy post := by
  rw [scanNumber_rest] at h
  have hcut := numberLexeme_cut (starts_of_suffix (numberLexeme_starts _) h)
  simp only [scanNumber, hcut, drop_append_of_starts (numberLexeme_starts cs)]
  split <;> rfl

theorem scanWord_cut (h : post <:+ (scanWord pos c (cs ++ post)).rest) :
    scanWord pos c (cs ++ post) = (scanWord pos c cs).followedBy post := by
  have hdrop : (cs ++ post).dropWhile Text.isIdentifierContinue =
      (cs ++ post).drop ((cs ++ post).takeWhile Text.isIdentifierContinue).length := by
    conv_rhs =>
      enter [2]; rw [← List.takeWhile_append_dropWhile (p := Text.isIdentifierContinue)
        (l := cs ++ post)]
    rw [List.drop_left]
  have h : post <:+ (cs ++ post).dropWhile Text.isIdentifierContinue := h
  rw [hdrop] at h
  have hword : (cs ++ post).takeWhile Text.isIdentifierContinue <+: cs ++ post :=
    List.takeWhile_prefix _
  obtain ⟨htake, hrest⟩ := takeWhile_cut (starts_of_suffix hword h)
  simp only [scanWord, htake, hrest]
  rfl

/-- **A token ends where it ends without what stands behind it.** -/
theorem scanToken_cut (h : post <:+ (scanToken pos c (cs ++ post)).rest) :
    scanToken pos c (cs ++ post) = (scanToken pos c cs).followedBy post := by
  cases hs : symbolAt? c (cs ++ post) with
  | some s =>
    simp only [scanToken, hs] at h ⊢
    obtain ⟨hshort, hrest⟩ := scanSymbol_cut hs h
    simp only [hshort, hrest]
    rfl
  | none =>
    have hnone := symbolAt?_eq_none hs cs
    by_cases hquote : c = '"' ∨ c = '\''
    · simp only [scanToken, hs, hnone, if_pos hquote] at h ⊢
      rw [scanString_cut h]
      rfl
    · by_cases hdigit : c.isDigit = true
      · simp only [scanToken, hs, hnone, if_neg hquote, if_pos hdigit] at h ⊢
        rw [← List.cons_append] at h ⊢
        exact scanNumber_cut h
      · by_cases hword : Text.isIdentifierStart c = true
        · simp only [scanToken, hs, hnone, if_neg hquote, if_neg hdigit, if_pos hword] at h ⊢
          exact scanWord_cut h
        · simp only [scanToken, hs, hnone, if_neg hquote, if_neg hdigit, if_neg hword]
          rfl

end Tokens

/-! ## Parts of a text -/

/-- The tokens but the end of input. -/
def Scan.words (s : Scan) : List (Located Token) := s.tokens.filter (·.val != .endOfInput)

theorem Scan.words_cons {t : Located Token} {ts : List (Located Token)}
    {errors : List (Located LexError)}
    (h : t.val ≠ .endOfInput) :
    (⟨t :: ts, errors⟩ : Scan).words = t :: (⟨ts, errors⟩ : Scan).words :=
  List.filter_cons_of_pos (bne_iff_ne.2 h)

section Parts

variable {pos start : Nat} {c : Char} {cs rest : List Char} {errors : List (Located LexError)}

/-- Behind a gap there is no blank, and only a gap up to the end of a text can have an error in
it. -/
theorem skipTrivia_eq_cons {errors : List (Located LexError)} {start : Nat} {c : Char}
    {rest : List Char}
    (h : skipTrivia pos cs = ⟨errors, start, c :: rest⟩) : isBlank c = false ∧ errors = [] := by
  fun_induction skipTrivia pos cs with
  | case1 pos => cases h
  | case2 pos d cs hblank ih => exact ih h
  | case3 pos body stop rest hline _ _ ih => exact ih h
  | case4 pos body stop rest hblock _ _ ih => exact ih h
  | case5 pos body stop rest hblock _ => cases h
  | case6 pos d rest hline hblock hblank =>
    cases h
    exact ⟨Bool.eq_false_iff.2 hblank, rfl⟩

/-- The offsets count the bytes that are passed over. -/
theorem skipTrivia_pos (pos : Nat) (cs : List Char) :
    (skipTrivia pos cs).pos + byteLength (skipTrivia pos cs).rest = pos + byteLength cs := by
  cases skipTrivia_spec pos cs with
  | trivia hcs hpos _ =>
    conv_rhs => rw [hcs]
    rw [hpos, byteLength_append, Nat.add_assoc]
  | unclosed hrest hpos _ =>
    rw [hrest, hpos]
    rfl

theorem scanToken_pos (pos : Nat) (c : Char) (cs : List Char) :
    (scanToken pos c cs).pos + byteLength (scanToken pos c cs).rest = pos +
      byteLength (c :: cs) := by
  obtain ⟨lexeme, -, hchars, hpos⟩ := (scanToken_reads pos c cs).chars
  rw [hchars, hpos, byteLength_append, Nat.add_assoc]

theorem scanToken_suffix (pos : Nat) (c : Char) (cs : List Char) :
    (scanToken pos c cs).rest <:+ cs := by
  obtain ⟨lexeme, hlexeme, hchars, -⟩ := (scanToken_reads pos c cs).chars
  obtain ⟨d, lexeme, rfl⟩ := List.exists_cons_of_ne_nil hlexeme
  exact ⟨lexeme, (List.cons.inj hchars).2.symm⟩

/-- Behind a gap there is no gap. -/
theorem skipTrivia_behind (h : skipTrivia pos cs = ⟨errors, start, c :: rest⟩) (pos' : Nat) :
    skipTrivia pos' (c :: rest) = ⟨[], pos', c :: rest⟩ := by
  fun_induction skipTrivia pos cs with
  | case1 pos => cases h
  | case2 pos d cs hblank ih => exact ih h
  | case3 pos body stop rest hline _ _ ih => exact ih h
  | case4 pos body stop rest hblock _ _ ih => exact ih h
  | case5 pos body stop rest hblock _ => cases h
  | case6 pos d rest hline hblock hblank =>
    cases h
    exact skipTrivia_token (Bool.eq_false_iff.2 hblank) (opensComment_eq_false hline hblock)

/-- A first token: the gap before it, the token, and the text behind it. -/
theorem scanFrom_eq_cons {t : Located Token} {after : List (Located Token)}
    (ht : t.val ≠ .endOfInput)
    (h : (scanFrom pos cs).tokens = t :: after) (herrors : (scanFrom pos cs).errors = []) :
    ∃ c rest left, skipTrivia pos cs = ⟨[], t.span.start, c :: rest⟩ ∧
      scanToken t.span.start c rest = ⟨t.val, [], t.span.stop, left⟩ ∧
      scanFrom t.span.stop left = ⟨after, []⟩ := by
  cases hskip : skipTrivia pos cs with
  | mk errors start left =>
    cases left with
    | nil =>
      rw [scanFrom_end hskip] at h
      cases h
      exact absurd rfl ht
    | cons c rest =>
      rw [scanFrom_token hskip rfl] at h herrors
      obtain ⟨rfl, rfl⟩ := List.cons.inj h
      obtain ⟨hfound, hafter⟩ := List.append_eq_nil_iff.1 herrors
      obtain ⟨rfl, htoken⟩ := List.append_eq_nil_iff.1 hfound
      refine ⟨c, rest, (scanToken start c rest).rest, rfl, ?_, ?_⟩
      · rw [← htoken]
      · rw [← hafter]

/-- **The first tokens of a text are those of its first part**, cut behind the last of them. -/
theorem scanFrom_part {used after : List (Located Token)}
    (h : (scanFrom pos cs).tokens = used ++ after)
    (herrors : (scanFrom pos cs).errors = []) (hused : ∀ t ∈ used, t.val ≠ .endOfInput) :
    ∃ mid post, cs = mid ++ post ∧ pos + byteLength mid = endOf pos used ∧
      scanFrom pos mid = ⟨used ++ [⟨⟨endOf pos used, endOf pos used⟩, .endOfInput⟩], []⟩ := by
  induction used generalizing pos cs with
  | nil => exact ⟨[], cs, rfl, rfl, scanFrom_end skipTrivia_nil⟩
  | cons t used ih =>
    obtain ⟨c, rest, left, hskip, htoken, hleft⟩ :=
      scanFrom_eq_cons (hused t List.mem_cons_self) h herrors
    obtain ⟨mid, post, rfl, hmid, hscan⟩ :=
      ih (congrArg Scan.tokens hleft) (congrArg Scan.errors hleft) fun u hu =>
        hused u (List.mem_cons_of_mem t hu)
    have hsuffix : mid ++ post <:+ rest := by
      have := scanToken_suffix t.span.start c rest
      rwa [htoken] at this
    obtain ⟨r, rfl⟩ := (List.suffix_append mid post).trans hsuffix
    obtain ⟨gap, hgap⟩ := skipTrivia_suffix pos cs
    rw [hskip] at hgap
    -- the gap and the token end where they end without the rest of the text
    have hcs : cs = (gap ++ c :: r) ++ post := by rw [← hgap, List.append_assoc, List.cons_append]
    have hskip' : skipTrivia pos (gap ++ c :: r) = ⟨[], t.span.start, c :: r⟩ :=
      skipTrivia_cut (hcs ▸ hskip)
    have htoken' : scanToken t.span.start c r = ⟨t.val, [], t.span.stop, mid⟩ := by
      have hcut : scanToken t.span.start c (r ++ post) =
          (scanToken t.span.start c r).followedBy post :=
        scanToken_cut (by rw [htoken]; exact List.suffix_append mid post)
      rw [htoken] at hcut
      simp only [Scanned.followedBy, Scanned.mk.injEq] at hcut
      obtain ⟨hval, hfound, hpos, hmid⟩ := hcut
      rw [hval, hfound, hpos, List.append_cancel_right hmid]
    refine ⟨gap ++ c :: r, post, hcs, ?_, ?_⟩
    · have hgapBytes := skipTrivia_pos pos (gap ++ c :: r)
      have hbytes := scanToken_pos t.span.start c r
      rw [hskip'] at hgapBytes
      rw [htoken', hmid] at hbytes
      rw [endOf_cons, hbytes, hgapBytes]
    · rw [scanFrom_token hskip' htoken', hscan, endOf_cons]
      rfl

/-- **The tokens from some place on are those of the rest of the text**, cut before the first of
them. -/
theorem scanFrom_resume {before after : List (Located Token)} {t : Located Token}
    (hbefore : ∀ u ∈ before, u.val ≠ .endOfInput) (ht : t.val ≠ .endOfInput)
    (h : (scanFrom pos cs).tokens = before ++ t :: after)
    (herrors : (scanFrom pos cs).errors = []) :
    ∃ pre rest, cs = pre ++ rest ∧ pos + byteLength pre = t.span.start ∧
      scanFrom t.span.start rest = ⟨t :: after, []⟩ := by
  induction before generalizing pos cs with
  | nil =>
    obtain ⟨c, rest, left, hskip, htoken, hleft⟩ := scanFrom_eq_cons ht h herrors
    obtain ⟨gap, hgap⟩ := skipTrivia_suffix pos cs
    have hbytes := skipTrivia_pos pos cs
    rw [hskip] at hgap hbytes
    refine ⟨gap, c :: rest, hgap.symm, ?_, ?_⟩
    · rw [← hgap, byteLength_append, ← Nat.add_assoc] at hbytes
      exact (Nat.add_right_cancel hbytes).symm
    · rw [scanFrom_token (skipTrivia_behind hskip _) htoken, hleft]
      rfl
  | cons u before ih =>
    obtain ⟨c, rest, left, hskip, htoken, hleft⟩ :=
      scanFrom_eq_cons (hbefore u List.mem_cons_self) h herrors
    obtain ⟨pre, rest', rfl, hpre, hscan⟩ := ih (fun v hv => hbefore v (List.mem_cons_of_mem u hv))
      (congrArg Scan.tokens hleft) (congrArg Scan.errors hleft)
    have hsuffix := scanToken_suffix u.span.start c rest
    obtain ⟨gap, hgap⟩ := skipTrivia_suffix pos cs
    have hgapBytes := skipTrivia_pos pos cs
    have hbytes := scanToken_pos u.span.start c rest
    rw [htoken] at hsuffix hbytes
    rw [hskip] at hgap hgapBytes
    obtain ⟨lexeme, rfl⟩ := hsuffix
    refine ⟨gap ++ c :: lexeme ++ pre, rest', ?_, ?_, hscan⟩
    · rw [← hgap]
      simp
    · rw [← hgap] at hgapBytes
      simp only [byteLength_append, byteLength] at hgapBytes hbytes ⊢
      omega

end Parts

end Stackscript
