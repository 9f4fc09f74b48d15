import Stackscript.Token.Scan
import Mathlib.Data.List.Infix

/-!
# Scanning loses nothing

The tokens of a text and the gaps between them make up the text: each token stands for some
characters, and a gap has nothing but blanks and comments. So it is for every text, however
malformed: strings, numbers, names and comments each have a reader of their own, and none skips a
character or shares one with another.

* `Trivia`: what may stand in a gap, `Unclosed`: a block comment without an end;
* `lineComment_spec`, `closedComment_spec`, `skipTrivia_spec`, `scanString_reads`,
  `scanToken_reads`: what a reader passes over;
* `Laid`: tokens with their spans, laid over a text; **`laid_scanFrom`**;
* `Scan.Lossless`, **`Token.scan_lossless`**.
-/

namespace Stackscript

/-! ## Bytes -/

theorem byteLength_append (cs ds : List Char) :
    byteLength (cs ++ ds) = byteLength cs + byteLength ds := by
  induction cs with
  | nil => simp [byteLength]
  | cons c cs ih =>
    rw [List.cons_append, byteLength, byteLength, ih]
    omega

theorem byteLength_pos {cs : List Char} (h : cs ≠ []) : 0 < byteLength cs := by
  cases cs with
  | nil => exact absurd rfl h
  | cons c cs =>
    have := c.utf8Size_pos
    rw [byteLength]
    omega

theorem utf8ByteSize_ofList (cs : List Char) : (String.ofList cs).utf8ByteSize = byteLength cs := by
  induction cs with
  | nil => rfl
  | cons c cs ih =>
    rw [byteLength, ← ih, ← String.utf8ByteSize_singleton,
      ← String.utf8ByteSize_append, String.ofList_cons]

/-- The offset behind some first characters of a text is a character boundary. -/
theorem isValid_behind {source : String} {before : List Char} (h : before <+: source.toList) :
    String.Pos.Raw.IsValid source ⟨byteLength before⟩ := by
  obtain ⟨after, hafter⟩ := h
  rw [String.Pos.Raw.isValid_iff_exists_append]
  refine ⟨String.ofList before, String.ofList after, ?_, ?_⟩
  · rw [← String.ofList_append, hafter, String.ofList_toList]
  · rw [← utf8ByteSize_ofList]
    rfl

/-! ## Gaps -/

/-- The character ends a line. -/
def IsLineEnd (c : Char) : Prop := c = '\n' ∨ c = '\r'

/-- **Only blanks and comments**, with some text behind them. A line comment reaches to the end of
its line, or of the text. A block comment reaches to the first `*/` from its third character on. -/
inductive Trivia : (gap rest : List Char) → Prop where
  | nil (rest : List Char) : Trivia [] rest
  | blank {c : Char} {gap rest : List Char} : c ∈ [' ', '\t', '\n', '\r'] →
      Trivia gap rest → Trivia (c :: gap) rest
  | line {body gap rest : List Char} : (∀ c ∈ body, ¬ IsLineEnd c) →
      (∀ c ∈ (gap ++ rest).head?, IsLineEnd c) → Trivia gap rest →
      Trivia ('/' :: '/' :: (body ++ gap)) rest
  | block {body gap rest : List Char} : ¬ ['*', '/'] <:+: body ++ ['*'] → Trivia gap rest →
      Trivia ('/' :: '*' :: (body ++ '*' :: '/' :: gap)) rest

/-- **Blanks and comments, and then a block comment without an end**, which reaches to the end of
the text and is reported. The text begins at an offset. -/
inductive Unclosed (errors : List (Located LexError)) (pos : Nat) : (gap : List Char) → Prop where
  | comment {gap body : List Char} : Trivia gap ('/' :: '*' :: body) → ¬ ['*', '/'] <:+: body →
      ⟨⟨pos + byteLength gap, pos + byteLength (gap ++ '/' :: '*' :: body)⟩, .unterminatedComment⟩ ∈
      errors → Unclosed errors pos (gap ++ '/' :: '*' :: body)

theorem lineComment_spec (pos : Nat) (cs : List Char) :
    ∃ body, cs = body ++ (lineComment pos cs).2 ∧ (lineComment pos cs).1 = pos + byteLength body ∧
      (∀ c ∈ body, ¬ IsLineEnd c) ∧ ∀ c ∈ (lineComment pos cs).2.head?, IsLineEnd c := by
  induction cs generalizing pos with
  | nil => exact ⟨[], rfl, rfl, nofun, nofun⟩
  | cons c cs ih =>
    rw [lineComment]
    split
    · next hc =>
      refine ⟨[], rfl, rfl, nofun, ?_⟩
      rintro _ ⟨⟩
      exact hc
    · next hc =>
      obtain ⟨body, hcs, hpos, hbody, hrest⟩ := ih (pos + c.utf8Size)
      refine ⟨c :: body, congrArg _ hcs, ?_, List.forall_mem_cons.2 ⟨hc, hbody⟩, hrest⟩
      rw [hpos, byteLength, Nat.add_assoc]

/-- The mark that closes a block comment, at the start of some characters or further on. -/
theorem closing_mark_cons {c d : Char} {cs : List Char} :
    ['*', '/'] <:+: c :: d :: cs ↔ (c = '*' ∧ d = '/') ∨ ['*', '/'] <:+: d :: cs := by
  rw [List.infix_cons_iff]
  simp [eq_comm]

/-- A block comment that is closed, from a character on that was passed over before. -/
theorem blockComment_closed {pos stop : Nat} {prev : Char} {cs rest : List Char}
    (h : blockComment pos prev cs = (true, stop, rest)) :
    ∃ body, cs = body ++ '/' :: rest ∧ stop = pos + byteLength body + 1 ∧
      (prev :: body).getLast? = some '*' ∧ ¬ ['*', '/'] <:+: prev :: body := by
  induction cs generalizing pos prev with
  | nil => cases h
  | cons c cs ih =>
    rw [blockComment] at h
    split at h
    · next hc =>
      obtain ⟨rfl, rfl⟩ := hc
      cases h
      exact ⟨[], rfl, rfl, rfl, by decide⟩
    · next hc =>
      obtain ⟨body, rfl, rfl, hlast, hfree⟩ := ih h
      refine ⟨c :: body, rfl, ?_, by rw [List.getLast?_cons_cons]; exact hlast, ?_⟩
      · rw [byteLength]
        omega
      · rw [closing_mark_cons]
        exact not_or.2 ⟨hc, hfree⟩

theorem blockComment_unclosed {pos stop : Nat} {prev : Char} {cs rest : List Char}
    (h : blockComment pos prev cs = (false, stop, rest)) :
    stop = pos + byteLength cs ∧ ¬ ['*', '/'] <:+: prev :: cs := by
  induction cs generalizing pos prev with
  | nil =>
    cases h
    refine ⟨rfl, fun hclosing => ?_⟩
    have := hclosing.length_le
    simp at this
  | cons c cs ih =>
    rw [blockComment] at h
    split at h
    · cases h
    · next hc =>
      obtain ⟨rfl, hfree⟩ := ih h
      refine ⟨by rw [byteLength, Nat.add_assoc], ?_⟩
      rw [closing_mark_cons]
      exact not_or.2 ⟨hc, hfree⟩

/-- A block comment that is closed may stand in front of a gap. -/
theorem closedComment_spec {pos stop : Nat} {cs rest : List Char}
    (h : blockComment pos ' ' cs = (true, stop, rest)) :
    ∃ body, cs = body ++ rest ∧ stop = pos + byteLength body ∧
      ∀ gap tail, Trivia gap tail → Trivia ('/' :: '*' :: (body ++ gap)) tail := by
  obtain ⟨body, rfl, rfl, hlast, hfree⟩ := blockComment_closed h
  -- the blank only stands for what was passed over before
  obtain ⟨inner, rfl⟩ : ∃ inner, body = inner ++ ['*'] := by
    obtain ⟨init, hinit⟩ := List.getLast?_eq_some_iff.1 hlast
    cases init with
    | nil => cases hinit
    | cons c inner => exact ⟨inner, (List.cons.inj hinit).2⟩
  refine ⟨inner ++ ['*', '/'], by simp, ?_, fun gap tail hgap => ?_⟩
  · have hstar : '*'.utf8Size = 1 := rfl
    have hslash : '/'.utf8Size = 1 := rfl
    simp only [byteLength_append, byteLength]
    omega
  · have htrivia :=
      Trivia.block (fun hclosing =>
        hfree (hclosing.trans (List.infix_cons (List.infix_refl _)))) hgap
    simpa using htrivia

/-- **A gap has been skipped**: blanks and comments, or also a block comment without an end. -/
inductive Skips (pos : Nat) : (cs : List Char) → Skipped → Prop where
  | trivia {cs gap : List Char} {s : Skipped} : cs = gap ++ s.rest → s.pos = pos + byteLength gap →
      Trivia gap s.rest → Skips pos cs s
  | unclosed {cs : List Char} {s : Skipped} : s.rest = [] → s.pos = pos + byteLength cs →
      Unclosed s.errors pos cs → Skips pos cs s

/-- More blanks or comments may stand in front. -/
theorem Skips.prepend {pos : Nat} {piece cs : List Char} {s : Skipped}
    (h : Skips (pos + byteLength piece) cs s)
    (hpiece : ∀ gap rest, cs = gap ++ rest → Trivia gap rest → Trivia (piece ++ gap) rest) :
    Skips pos (piece ++ cs) s := by
  cases h with
  | trivia hcs hpos hgap =>
    refine .trivia ?_ ?_ (hpiece _ _ hcs hgap)
    · rw [hcs, List.append_assoc]
    · rw [hpos, byteLength_append, Nat.add_assoc]
  | unclosed hrest hpos hun =>
    refine .unclosed hrest (by rw [hpos, byteLength_append, Nat.add_assoc]) ?_
    cases hun with
    | @comment gap body hgap hbody herror =>
      have hopen := hpiece _ _ rfl hgap
      rw [← List.append_assoc]
      refine .comment hopen hbody ?_
      rwa [List.append_assoc, byteLength_append piece, byteLength_append piece,
        ← Nat.add_assoc, ← Nat.add_assoc]

/-- **What is skipped is a gap.** -/
theorem skipTrivia_spec (pos : Nat) (cs : List Char) : Skips pos cs (skipTrivia pos cs) := by
  have hslash : '/'.utf8Size = 1 := rfl
  have hstar : '*'.utf8Size = 1 := rfl
  fun_induction skipTrivia pos cs with
  | case1 pos => exact .trivia rfl rfl (.nil [])
  | case2 pos c cs hblank ih =>
    have hc : c ∈ [' ', '\t', '\n', '\r'] := by simpa [isBlank, or_assoc] using hblank
    rw [show pos + c.utf8Size = pos + byteLength [c] by simp [byteLength]] at ih ⊢
    exact ih.prepend fun gap rest _ hgap => .blank hc hgap
  | case3 pos body stop rest hline _ _ ih =>
    obtain ⟨text, hbody, hstop, htext, hend⟩ := lineComment_spec (pos + 2) body
    rw [hline] at hbody hstop hend
    have hpos : stop = pos + byteLength ('/' :: '/' :: text) := by
      simp only [byteLength]
      omega
    rw [hpos] at ih
    rw [hbody, hpos]
    refine ih.prepend fun gap tail hrest hgap => .line htext ?_ hgap
    rwa [← hrest]
  | case4 pos body stop rest hblock _ _ ih =>
    obtain ⟨text, hbody, hstop, htext⟩ := closedComment_spec hblock
    have hpos : stop = pos + byteLength ('/' :: '*' :: text) := by
      simp only [byteLength]
      omega
    rw [hpos] at ih
    rw [hbody, hpos]
    exact ih.prepend fun gap tail _ hgap => htext gap tail hgap
  | case5 pos body stop rest hblock _ =>
    obtain ⟨hstop, hfree⟩ := blockComment_unclosed hblock
    have hpos : stop = pos + byteLength ('/' :: '*' :: body) := by
      simp only [byteLength]
      omega
    refine .unclosed rfl hpos (Unclosed.comment (.nil _)
      (fun hclosing => hfree (List.infix_cons hclosing)) ?_)
    rw [hpos]
    exact List.mem_singleton.2 rfl
  | case6 pos c rest _ _ _ => exact .trivia rfl rfl (.nil _)

/-! ## Lexemes -/

theorem Symbol.byteLength_text (s : Symbol) :
    byteLength s.text.toList = s.text.length ∧ 0 < s.text.length := by
  cases s <;> decide

theorem symbolAt?_starts {c : Char} {cs : List Char} {s : Symbol} (h : symbolAt? c cs = some s) :
    s.text.toList <+: c :: cs := by
  have horEqual : ∀ {longer shorter : Symbol}, longer.text.toList = [c, '='] →
      shorter.text.toList = [c] → some (if cs.head? = some '=' then longer else shorter) = some s →
      s.text.toList <+: c :: cs := by
    intro longer shorter hlonger hshorter hs
    split at hs
    · next hhead =>
      obtain ⟨tail, rfl⟩ := List.head?_eq_some_iff.1 hhead
      cases hs
      rw [hlonger]
      exact ⟨tail, rfl⟩
    · cases hs
      rw [hshorter]
      exact ⟨cs, rfl⟩
  simp only [symbolAt?] at h
  split at h
  all_goals first
    | exact horEqual rfl rfl h
    | (cases h; exact ⟨cs, rfl⟩)
    | cases h

theorem fractionLexeme_starts (cs : List Char) : fractionLexeme cs <+: cs := by
  unfold fractionLexeme
  split
  · split
    · exact List.cons_prefix_cons.2 ⟨rfl, List.cons_prefix_cons.2 ⟨rfl, List.takeWhile_prefix _⟩⟩
    · exact List.nil_prefix
  · exact List.nil_prefix

theorem signLexeme_starts (cs : List Char) : signLexeme cs <+: cs := by
  unfold signLexeme
  split
  · exact ⟨_, rfl⟩
  · exact ⟨_, rfl⟩
  · exact List.nil_prefix

theorem exponentLexeme_starts (cs : List Char) : exponentLexeme cs <+: cs := by
  cases cs with
  | nil => exact List.nil_prefix
  | cons e cs =>
    simp only [exponentLexeme]
    split
    · split
      · next d ds hdrop =>
        split
        · have hsign := List.prefix_iff_eq_append.1 (signLexeme_starts cs)
          rw [hdrop] at hsign
          rw [List.cons_append, List.cons_prefix_cons]
          refine ⟨rfl, ?_⟩
          conv_rhs => rw [← hsign]
          exact (List.prefix_append_right_inj _).2 (List.cons_prefix_cons.2 ⟨rfl,
            List.takeWhile_prefix _⟩)
        · exact List.nil_prefix
      · exact List.nil_prefix
    · exact List.nil_prefix

theorem numberLexeme_starts (cs : List Char) : numberLexeme cs <+: cs := by
  have hcs : cs = cs.takeWhile isDigitChar ++ cs.dropWhile isDigitChar :=
    (List.takeWhile_append_dropWhile).symm
  have hrest := List.prefix_iff_eq_append.1 (fractionLexeme_starts (cs.dropWhile isDigitChar))
  rw [numberLexeme, List.append_assoc]
  conv_rhs => rw [hcs, ← hrest]
  exact (List.prefix_append_right_inj _).2
    ((List.prefix_append_right_inj _).2 (exponentLexeme_starts _))

/-- A string literal that began at `start` has been read on over some characters, and if it has no
value, then this is reported. -/
structure StringScan.Reads (start pos : Nat) (cs : List Char) (s : StringScan) : Prop where
  chars : ∃ lexeme, cs = lexeme ++ s.rest ∧ s.pos = pos + byteLength lexeme
  reported : s.value = none → ⟨⟨start, s.pos⟩, .unterminatedString⟩ ∈ s.errors

theorem StringScan.Reads.prepend {start pos next : Nat} {piece cs : List Char} {s : StringScan}
    (h : s.Reads start next cs) (hnext : next = pos + byteLength piece) (c : Char)
    (errors : List (Located LexError)) : (s.prepend c errors).Reads start pos (piece ++ cs) where
  chars := by
    obtain ⟨lexeme, hcs, hpos⟩ := h.chars
    refine ⟨piece ++ lexeme, ?_, ?_⟩
    · rw [List.append_assoc]
      exact congrArg _ hcs
    · rw [byteLength_append, ← Nat.add_assoc, ← hnext]
      exact hpos
  reported hnone := List.mem_append_right _ (h.reported (Option.map_eq_none_iff.1 hnone))

theorem scanString_reads (quote : Char) (start pos : Nat) (cs : List Char) :
    (scanString quote start pos cs).Reads start pos cs := by
  fun_induction scanString quote start pos cs with
  | case1 pos => exact ⟨⟨[], rfl, rfl⟩, fun _ => List.mem_singleton.2 rfl⟩
  | case2 pos cs next => exact ⟨⟨[quote], rfl, rfl⟩, fun h => by cases h⟩
  | case3 pos next _ => exact ⟨⟨['\\'], rfl, rfl⟩, fun _ => List.mem_singleton.2 rfl⟩
  | case4 pos e cs v _ next _ stop ih | case5 pos e cs _ next _ stop ih =>
    have hstop : stop = pos + byteLength ['\\', e] := by
      simp only [stop, next, byteLength]
      omega
    exact ih.prepend hstop _ _
  | case6 pos c cs next _ _ ih =>
    have hnext : next = pos + byteLength [c] := rfl
    exact ih.prepend hnext c []

/-- **A token has been read over some characters**, one at least, and if it is invalid, then this is
reported. -/
structure Scanned.Reads (pos : Nat) (cs : List Char) (s : Scanned) : Prop where
  chars : ∃ lexeme, lexeme ≠ [] ∧ cs = lexeme ++ s.rest ∧ s.pos = pos + byteLength lexeme
  token : s.token ≠ .endOfInput
  reported : s.token = .invalid → ∃ e ∈ s.errors, e.span = ⟨pos, s.pos⟩

theorem scanNumber_reads (pos : Nat) {c : Char} (cs : List Char) (h : c.isDigit = true) :
    (scanNumber pos (c :: cs)).Reads pos (c :: cs) := by
  have hchars : ∃ lexeme, lexeme ≠ [] ∧
      c :: cs = lexeme ++ (c :: cs).drop (numberLexeme (c :: cs)).length ∧
      pos + byteLength (numberLexeme (c :: cs)) = pos + byteLength lexeme :=
    ⟨_, numberLexeme_ne_nil cs h, (List.prefix_iff_eq_append.1 (numberLexeme_starts _)).symm, rfl⟩
  simp only [scanNumber]
  split
  · exact ⟨hchars, fun h => (by cases h), fun h => (by cases h)⟩
  · exact ⟨hchars, fun h => (by cases h), fun _ => ⟨_, List.mem_singleton.2 rfl, rfl⟩⟩

theorem scanWord_reads (pos : Nat) (c : Char) (cs : List Char) :
    (scanWord pos c cs).Reads pos (c :: cs) := by
  have hchars : c :: cs = (c :: cs.takeWhile Text.isIdentifierContinue) ++
      cs.dropWhile Text.isIdentifierContinue := by
    rw [List.cons_append, List.takeWhile_append_dropWhile]
  refine ⟨⟨_, List.cons_ne_nil _ _, hchars, rfl⟩, ?_, ?_⟩
  · simp only [scanWord]
    split <;> nofun
  · simp only [scanWord]
    split <;> nofun

theorem scanSymbol_reads (pos : Nat) {c : Char} {cs : List Char} {s : Symbol}
    (h : symbolAt? c cs = some s) :
    Scanned.Reads pos (c :: cs) ⟨.symbol s, [], pos + s.text.length,
      cs.drop (s.text.length - 1)⟩ := by
  obtain ⟨hbytes, hpos⟩ := s.byteLength_text
  have hchars := List.prefix_iff_eq_append.1 (symbolAt?_starts h)
  have hdrop : (c :: cs).drop s.text.toList.length = cs.drop (s.text.length - 1) := by
    rw [String.length_toList, ← Nat.sub_add_cancel hpos, List.drop_succ_cons, Nat.add_sub_cancel]
  rw [hdrop] at hchars
  refine ⟨⟨s.text.toList, fun hnil => ?_, hchars.symm, by rw [hbytes]⟩, nofun, nofun⟩
  rw [← String.length_toList, hnil] at hpos
  cases hpos

theorem scanQuoted_reads (pos : Nat) {c : Char} {cs : List Char} (hsymbol : symbolAt? c cs = none)
    (hquote : c = '"' ∨ c = '\'') : (scanToken pos c cs).Reads pos (c :: cs) := by
  have hsize : c.utf8Size = 1 := by obtain rfl | rfl := hquote <;> rfl
  obtain ⟨⟨lexeme, hcs, hpos⟩, hreported⟩ := scanString_reads c pos (pos + 1) cs
  have hchars : ∃ lexeme, lexeme ≠ [] ∧ c :: cs = lexeme ++ (scanString c pos (pos + 1) cs).rest ∧
      (scanString c pos (pos + 1) cs).pos = pos + byteLength lexeme :=
    ⟨c :: lexeme, List.cons_ne_nil _ _, congrArg _ hcs,
      by rw [hpos, byteLength, hsize, Nat.add_assoc]⟩
  simp only [scanToken, hsymbol, if_pos hquote]
  cases hvalue : (scanString c pos (pos + 1) cs).value with
  | some value => exact ⟨hchars, nofun, nofun⟩
  | none => exact ⟨hchars, nofun, fun _ => ⟨_, hreported hvalue, rfl⟩⟩

/-- **What is scanned as a token is a token.** -/
theorem scanToken_reads (pos : Nat) (c : Char) (cs : List Char) :
    (scanToken pos c cs).Reads pos (c :: cs) := by
  cases hsymbol : symbolAt? c cs with
  | some s =>
    simp only [scanToken, hsymbol]
    exact scanSymbol_reads pos hsymbol
  | none =>
    by_cases hquote : c = '"' ∨ c = '\''
    · exact scanQuoted_reads pos hsymbol hquote
    · simp only [scanToken, hsymbol, if_neg hquote]
      split
      · next hdigit => exact scanNumber_reads pos cs hdigit
      · split
        · exact scanWord_reads pos c cs
        · exact ⟨⟨[c], List.cons_ne_nil _ _, rfl, rfl⟩, nofun, fun _ =>
            ⟨_, List.mem_singleton.2 rfl, rfl⟩⟩

/-! ## Texts -/

/-- **Tokens are laid over a text** that begins at an offset: before each there is a gap, and each
but the end of input stands for some characters. -/
inductive Laid (errors : List (Located LexError)) : (pos : Nat) → (cs : List Char) →
    List (Located Token) → Prop where
  | last {pos : Nat} {gap : List Char} : Trivia gap [] ∨ Unclosed errors pos gap →
      Laid errors pos gap [⟨⟨pos + byteLength gap, pos + byteLength gap⟩, .endOfInput⟩]
  | token {pos : Nat} {gap lexeme rest : List Char} {t : Located Token}
      {ts : List (Located Token)} : Trivia gap (lexeme ++ rest) → lexeme ≠ [] →
      t.span = ⟨pos + byteLength gap, pos + byteLength gap + byteLength lexeme⟩ →
      t.val ≠ .endOfInput → (t.val = .invalid → ∃ e ∈ errors, e.span = t.span) →
      Laid errors t.span.stop rest ts → Laid errors pos (gap ++ (lexeme ++ rest)) (t :: ts)

theorem Unclosed.mono {errors errors' : List (Located LexError)} {pos : Nat} {gap : List Char}
    (h : Unclosed errors pos gap) (hle : errors ⊆ errors') : Unclosed errors' pos gap := by
  cases h with
  | comment hgap hbody herror => exact .comment hgap hbody (hle herror)

/-- **The tokens that are scanned are laid over the text.** -/
theorem laid_scanFrom {errors : List (Located LexError)} (pos : Nat) (cs : List Char)
    (h : (scanFrom pos cs).errors ⊆ errors) : Laid errors pos cs (scanFrom pos cs).tokens := by
  fun_induction scanFrom pos cs with
  | case1 pos cs skipped start hskip =>
    have hskips := skipTrivia_spec pos cs
    rw [hskip] at hskips
    cases hskips with
    | trivia hcs hpos hgap =>
      rw [List.append_nil] at hcs
      subst hcs hpos
      exact .last (.inl hgap)
    | unclosed _ hpos hun =>
      subst hpos
      exact .last (.inr (hun.mono h))
  | case2 pos cs skipped start c rest hskip _ _ s tail ih =>
    have hskips := skipTrivia_spec pos cs
    rw [hskip] at hskips
    have hreads : s.Reads start (c :: rest) := scanToken_reads start c rest
    obtain ⟨lexeme, hne, hchars, hpos⟩ := hreads.chars
    cases hskips with
    | unclosed hrest => cases hrest
    | trivia hcs hstart hgap =>
      change cs = _ ++ c :: rest at hcs
      change Trivia _ (c :: rest) at hgap
      change start = _ at hstart
      rw [hchars] at hcs hgap
      subst hcs
      refine .token hgap hne ?_ hreads.token (fun hinvalid => ?_) (ih fun e he => h ?_)
      · rw [hpos, ← hstart]
      · obtain ⟨e, he, hspan⟩ := hreads.reported hinvalid
        exact ⟨e, h (List.mem_append_left _ (List.mem_append_right _ he)), hspan⟩
      · exact List.mem_append_right _ he

theorem Token.laid_scan (source : String) :
    Laid (Token.scan source).errors 0 source.toList (Token.scan source).tokens :=
  laid_scanFrom 0 source.toList (List.Subset.refl _)

/-- The offset behind the last of some tokens, or `pos` if there is none. -/
def endOf (pos : Nat) (ts : List (Located Token)) : Nat := (ts.getLast?.map (·.span.stop)).getD pos

theorem endOf_cons (pos : Nat) (t : Located Token) (ts : List (Located Token)) :
    endOf pos (t :: ts) = endOf t.span.stop ts := by
  rw [endOf, endOf, List.getLast?_cons]
  cases ts.getLast? <;> rfl

namespace Laid

variable {errors : List (Located LexError)} {pos : Nat} {cs : List Char} {ts : List (Located Token)}

/-- Each token but the end of input stands for a character at least. -/
theorem length_le (h : Laid errors pos cs ts) : ts.length ≤ cs.length + 1 := by
  induction h with
  | last => exact Nat.le_add_left _ _
  | token _ hne _ _ _ _ ih =>
    have := List.length_pos_of_ne_nil hne
    simp only [List.length_cons, List.length_append]
    omega

/-- The end of input is the last token, and stands behind the text. -/
theorem ends (h : Laid errors pos cs ts) :
    ∃ init, ts = init ++ [⟨⟨pos + byteLength cs, pos + byteLength cs⟩, .endOfInput⟩] ∧
      ∀ t ∈ init, t.val ≠ .endOfInput := by
  induction h with
  | last => exact ⟨[], rfl, nofun⟩
  | @token pos gap lexeme rest t ts _ _ hspan hval _ _ ih =>
    obtain ⟨init, rfl, hinit⟩ := ih
    refine ⟨t :: init, ?_, List.forall_mem_cons.2 ⟨hval, hinit⟩⟩
    rw [hspan, byteLength_append, byteLength_append, List.cons_append, Nat.add_assoc, Nat.add_assoc]

theorem le_start (h : Laid errors pos cs ts) : ∀ t ∈ ts, pos ≤ t.span.start := by
  induction h with
  | last => exact List.forall_mem_singleton.2 (Nat.le_add_right _ _)
  | token _ _ hspan _ _ _ ih =>
    rw [hspan] at ih
    refine List.forall_mem_cons.2 ⟨?_, fun u hu => Nat.le_trans (by simp only; omega) (ih u hu)⟩
    rw [hspan]
    exact Nat.le_add_right _ _

/-- Tokens stand one behind the other. -/
theorem ordered (h : Laid errors pos cs ts) : ts.Pairwise (·.span.stop ≤ ·.span.start) := by
  induction h with
  | last => exact List.pairwise_singleton _ _
  | token _ _ _ _ _ htail ih => exact List.pairwise_cons.2 ⟨htail.le_start, ih⟩

/-- An invalid token is reported. -/
theorem reported (h : Laid errors pos cs ts) :
    ∀ t ∈ ts, t.val = .invalid → ∃ e ∈ errors, e.span = t.span := by
  induction h with
  | last => exact List.forall_mem_singleton.2 nofun
  | token _ _ _ _ hreported _ ih => exact List.forall_mem_cons.2 ⟨hreported, ih⟩

/-- Behind some first tokens, the others are laid over the rest of the text. -/
theorem behind {before after : List (Located Token)} {t : Located Token}
    (h : Laid errors pos cs (before ++ t :: after)) :
    ∃ text rest, cs = text ++ rest ∧ pos + byteLength text = endOf pos before ∧
      Laid errors (endOf pos before) rest (t :: after) := by
  induction before generalizing pos cs with
  | nil => exact ⟨[], cs, rfl, rfl, h⟩
  | cons u before ih =>
    rw [endOf_cons]
    rw [List.cons_append] at h
    generalize hts : before ++ t :: after = ts at h
    cases h with
    | last => exact absurd hts (by simp)
    | @token _ gap lexeme rest _ _ _ _ hspan _ _ htail =>
      rw [← hts] at htail
      obtain ⟨text, rest', rfl, htext, hbehind⟩ := ih htail
      refine ⟨gap ++ (lexeme ++ text), rest', by simp only [List.append_assoc], ?_, hbehind⟩
      rw [← htext, hspan]
      simp only [byteLength_append]
      omega

/-- **What a token stands for**, and the gap before it. -/
theorem head {after : List (Located Token)} {t : Located Token}
    (h : Laid errors pos cs (t :: after)) :
    ∃ gap lexeme rest, cs = gap ++ (lexeme ++ rest) ∧
      t.span = ⟨pos + byteLength gap, pos + byteLength gap + byteLength lexeme⟩ ∧
      (lexeme = [] → t.val = .endOfInput) ∧
      (Trivia gap (lexeme ++ rest) ∨ t.val = .endOfInput ∧ lexeme ++ rest = [] ∧
        Unclosed errors pos gap) := by
  cases h with
  | last hgap =>
    exact ⟨cs, [], [], by simp, rfl, fun _ => rfl, hgap.imp id fun hun => ⟨rfl, rfl, hun⟩⟩
  | @token _ gap lexeme rest _ _ hgap hne hspan _ _ _ =>
    exact ⟨gap, lexeme, rest, rfl, hspan, fun hnil => absurd hnil hne, .inl hgap⟩

end Laid

/-- **Nothing of a text is lost in a scan.**

* `ends`: the end of input is the last token, it stands behind the text, and there are no more
  tokens before it than characters in the text;
* `spans`, `ordered`, `boundaries`: every other token stands for some characters, all tokens stand
  one behind the other, and no span cuts a character;
* `gaps`: from the end of the token before it, or from the start of the text, up to a token there
  are only blanks and comments; before the end of input, a block comment may be without an end, and
  is then reported;
* `invalid`: an invalid token is reported with its span. -/
structure Scan.Lossless (scan : Scan) (source : String) : Prop where
  ends : ∃ init, scan.tokens = init ++ [⟨⟨source.utf8ByteSize, source.utf8ByteSize⟩, .endOfInput⟩] ∧
    (∀ t ∈ init, t.val ≠ .endOfInput) ∧ init.length ≤ source.length
  spans : ∀ t ∈ scan.tokens, t.val ≠ .endOfInput → t.span.start < t.span.stop
  ordered : scan.tokens.Pairwise (·.span.stop ≤ ·.span.start)
  boundaries : ∀ t ∈ scan.tokens,
    String.Pos.Raw.IsValid source ⟨t.span.start⟩ ∧ String.Pos.Raw.IsValid source ⟨t.span.stop⟩
  gaps : ∀ before t after, scan.tokens = before ++ t :: after →
    ∃ text gap rest, source.toList = text ++ (gap ++ rest) ∧ byteLength text = endOf 0 before ∧
      byteLength (text ++ gap) = t.span.start ∧
      (Trivia gap rest ∨ t.val = .endOfInput ∧ rest = [] ∧
      Unclosed scan.errors (byteLength text) gap)
  invalid : ∀ t ∈ scan.tokens, t.val = .invalid → ∃ e ∈ scan.errors, e.span = t.span

/-- The characters of a text up to a token, those it stands for and those behind it. -/
theorem scan_around {source : String} {before after : List (Located Token)} {t : Located Token}
    (h : (Token.scan source).tokens = before ++ t :: after) :
    ∃ text gap lexeme rest, source.toList = text ++ (gap ++ (lexeme ++ rest)) ∧
      byteLength text = endOf 0 before ∧
      t.span = ⟨byteLength (text ++ gap), byteLength (text ++ gap ++ lexeme)⟩ ∧
      (lexeme = [] → t.val = .endOfInput) ∧
      (Trivia gap (lexeme ++ rest) ∨
        t.val = .endOfInput ∧ lexeme ++ rest = [] ∧
          Unclosed (Token.scan source).errors (byteLength text) gap) := by
  have hlaid := Token.laid_scan source
  rw [h] at hlaid
  obtain ⟨text, rest, hsource, htext, hbehind⟩ := hlaid.behind
  obtain ⟨gap, lexeme, rest', rfl, hspan, hval, hgap⟩ := hbehind.head
  rw [Nat.zero_add] at htext
  rw [← htext, ← byteLength_append, ← byteLength_append] at hspan
  exact ⟨text, gap, lexeme, rest', hsource, htext, hspan, hval, htext ▸ hgap⟩

/-- **Scanning loses nothing.** -/
theorem Token.scan_lossless (source : String) : (Token.scan source).Lossless source := by
  have hlaid := Token.laid_scan source
  have hsize : byteLength source.toList = source.utf8ByteSize := by
    rw [← utf8ByteSize_ofList, String.ofList_toList]
  refine ⟨?_, fun t ht hval => ?_, hlaid.ordered, fun t ht => ?_, fun before t after hts =>
    ?_, hlaid.reported⟩
  · obtain ⟨init, hinit, hval⟩ := hlaid.ends
    have hlength := hlaid.length_le
    rw [hinit, List.length_append, String.length_toList] at hlength
    rw [Nat.zero_add, hsize] at hinit
    exact ⟨init, hinit, hval, Nat.le_of_succ_le_succ hlength⟩
  · obtain ⟨before, after, hts⟩ := List.append_of_mem ht
    obtain ⟨text, gap, lexeme, rest, -, -, hspan, hlexeme, -⟩ := scan_around hts
    have := byteLength_pos (mt hlexeme hval)
    rw [hspan, byteLength_append _ lexeme]
    exact Nat.lt_add_of_pos_right this
  · obtain ⟨before, after, hts⟩ := List.append_of_mem ht
    obtain ⟨text, gap, lexeme, rest, hsource, -, hspan, -, -⟩ := scan_around hts
    rw [hspan]
    refine ⟨isValid_behind ⟨lexeme ++ rest, ?_⟩, isValid_behind ⟨rest, ?_⟩⟩
    · rw [hsource, List.append_assoc]
    · rw [hsource, List.append_assoc, List.append_assoc]
  · obtain ⟨text, gap, lexeme, rest, hsource, htext, hspan, -, hgap⟩ := scan_around hts
    exact ⟨text, gap, lexeme ++ rest, hsource, htext, by rw [hspan], hgap⟩

end Stackscript
