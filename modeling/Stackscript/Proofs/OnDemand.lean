import Stackscript.Proofs.ParserProgress
import Stackscript.Session

/-!
# Scanning on demand

A text need not be scanned before it is read: a reader can ask the scanner for one token after the
other, with one token of lookahead, and have the scanner keep the lexical errors that it finds. An
invalid token is passed over by asking for another one. What is read so is what is read from the
tokens of the whole text. As reading goes on to the end of input whatever errors there are, the
scanner has then found each lexical error of the text, and each of them once.

* `Scanner`, `Scanner.next`, `Scanner.nextValid`: a text from which tokens are taken;
* `Stream`, `OnDemand`: reading from a scanner;
* `Stream.Shows`: the stream shows what a cursor shows, with **`OnDemand.simulation`**;
* `Program.readOnDemand`, **`Program.lexical_errors_first`**: the errors that are reported.
-/

namespace Stackscript

/-! ## Scanners -/

/-- A text that is scanned as far as tokens were taken: the offset, the characters from there on,
and the errors found up to there. -/
structure Scanner where
  pos : Nat
  rest : List Char
  errors : List (Located LexError)

namespace Scanner

/-- Takes a token. Behind the text it is the end of input, any number of times. -/
def next (s : Scanner) : Located Token × Scanner :=
  match skipTrivia s.pos s.rest with
  | ⟨found, start, []⟩ => (⟨⟨start, start⟩, .endOfInput⟩, ⟨start, [], s.errors ++ found⟩)
  | ⟨found, start, c :: rest⟩ =>
    let t := scanToken start c rest
    (⟨⟨start, t.pos⟩, t.token⟩, ⟨t.pos, t.rest, s.errors ++ (found ++ t.errors)⟩)

/-- What is left to be scanned. -/
def scan (s : Scanner) : Scan := scanFrom s.pos s.rest

/-- **What taking a token does.** The errors that were found and those that are left to be found are
the same before and behind it. Of the tokens that are left, which are given by a function, it is the
first one. -/
structure Yields (left : Scanner → List (Located Token)) (s : Scanner) (t : Located Token)
    (s' : Scanner) : Prop where
  errors : s'.errors ++ s'.scan.errors = s.errors ++ s.scan.errors
  more : t.val ≠ .endOfInput → left s = t :: left s' ∧ s'.rest.length < s.rest.length
  last : t.val = .endOfInput → left s = [t] ∧ s'.rest = [] ∧ t.span = ⟨s'.pos, s'.pos⟩

theorem yields_next (s : Scanner) : Yields (·.scan.tokens) s s.next.1 s.next.2 := by
  cases hskip : skipTrivia s.pos s.rest with
  | mk found start left =>
    cases left with
    | nil =>
      have hscan : s.scan = _ := scanFrom_end hskip
      simp only [next, hskip]
      refine ⟨?_, fun h => absurd rfl h, fun _ => ⟨by rw [hscan], rfl, rfl⟩⟩
      rw [hscan]
      show s.errors ++ found ++ (scanFrom start []).errors = _
      rw [scanFrom_end skipTrivia_nil, List.append_nil]
    | cons c rest =>
      have hscan : s.scan = _ := scanFrom_token hskip rfl
      have hlt := length_lt_of_skipTrivia hskip
      have hle := length_scanToken_le start c rest
      simp only [next, hskip]
      refine ⟨?_, fun _ => ⟨by rw [hscan]; rfl, Nat.lt_of_le_of_lt hle hlt⟩,
        fun h => absurd h (scanToken_reads start c rest).token⟩
      rw [hscan, List.append_assoc]
      rfl

/-- Takes tokens up to one that is not invalid. -/
def nextValid (s : Scanner) : Located Token × Scanner :=
  if s.next.1.val = .invalid then s.next.2.nextValid else s.next
termination_by s.rest.length
decreasing_by
  next h => exact (s.yields_next.more (by rw [h]; exact Token.noConfusion)).2

/-- The tokens that are left, without the invalid ones. -/
def valid (s : Scanner) : List (Located Token) := s.scan.tokens.filter (·.val != .invalid)

theorem yields_nextValid (s : Scanner) : Yields valid s s.nextValid.1 s.nextValid.2 := by
  fun_induction nextValid s with
  | case1 s hinvalid ih =>
    have hnext := s.yields_next
    obtain ⟨htokens, hlt⟩ := hnext.more (by rw [hinvalid]; exact Token.noConfusion)
    have hvalid : s.valid = s.next.2.valid := by
      rw [valid, htokens, List.filter_cons_of_neg (by rw [hinvalid]; decide)]
      rfl
    refine ⟨ih.errors.trans hnext.errors, fun h => ?_, fun h => ?_⟩
    · rw [hvalid]
      exact ⟨(ih.more h).1, Nat.lt_trans (ih.more h).2 hlt⟩
    · rw [hvalid]
      exact ih.last h
  | case2 s hvalid =>
    have hnext := s.yields_next
    have hkept : (s.next.1.val != .invalid) = true := bne_iff_ne.2 hvalid
    refine ⟨hnext.errors, fun h => ⟨?_, (hnext.more h).2⟩, fun h => ⟨?_, (hnext.last h).2⟩⟩
    · rw [valid, (hnext.more h).1]
      exact List.filter_cons_of_pos hkept
    · rw [valid, (hnext.last h).1]
      exact List.filter_cons_of_pos hkept

/-- Some token is always left, the end of input if there is no other. -/
theorem valid_eq_cons (s : Scanner) : ∃ t ts, s.valid = t :: ts := by
  by_cases hend : s.nextValid.1.val = .endOfInput
  · exact ⟨_, _, (s.yields_nextValid.last hend).1⟩
  · exact ⟨_, _, (s.yields_nextValid.more hend).1⟩

end Scanner

/-! ## Reading from a scanner -/

/-- A scanner with one token of lookahead. -/
structure Stream where
  scanner : Scanner
  /-- The token before the current one. -/
  previous : Located Token
  current : Located Token
  /-- The errors recovered from, latest first. -/
  errors : List (Located SyntaxError)

namespace Stream

/-- Takes the next token from the scanner. -/
def advance (s : Stream) : Stream :=
  { s with
    previous := s.current
    current := s.scanner.nextValid.1
    scanner := s.scanner.nextValid.2 }

/-- The stream at the first token of a text, with none before it. -/
def ofText (source : String) : Stream :=
  advance ⟨⟨0, source.toList, []⟩, ⟨⟨0, 0⟩, .endOfInput⟩, ⟨⟨0, 0⟩, .endOfInput⟩, []⟩

/-- A bound for the calls that read statements from the stream: what is left has at most one token
for each character and the end of input. -/
def fuel (s : Stream) : Nat := 4 * (s.scanner.rest.length + 1) + 4

/-- Takes tokens until just behind a semicolon or just before a token that can only begin a
statement. -/
def synchronize (s : Stream) : Stream :=
  if s.current.val = .endOfInput then s
  else if s.previous.val = .symbol .semicolon ∨ s.current.val.beginsStatement then s
  else s.advance.synchronize
termination_by if s.current.val = .endOfInput then 0 else s.scanner.rest.length + 1
decreasing_by
  next hend _ =>
    rw [if_neg hend]
    split
    · exact Nat.zero_lt_succ _
    · next hmore => exact Nat.succ_lt_succ (s.scanner.yields_nextValid.more hmore).2

/-- The stream from which reading goes on after an error in a statement that began at `start`. -/
def recover (s : Stream) (start : Span) (e : Located SyntaxError) : Stream :=
  let s := { s with errors := e :: s.errors }.synchronize
  if s.current.span = start ∧ s.current.val ≠ .endOfInput then s.advance else s

end Stream

/-- A reader that takes its tokens from a scanner. -/
abbrev OnDemand := EStateM Stop Stream

open Reading

instance : Reading OnDemand where
  stop := throw
  current s := .ok s.current s
  lastSpan s := .ok s.previous.span s
  next s := .ok s.current s.advance
  ahead s := .ok (s.scanner.rest.length + 1) s
  recovering x s :=
    match x s with
    | .ok a s' => .ok (some a) s'
    | .error (.error e) s' => .ok none (s'.recover s.current.span e)
    | .error .outOfFuel s' => .error .outOfFuel s'

/-! ## Streams and cursors -/

/-- **The stream shows what a cursor over all the tokens shows.** The errors of the scanner and
those it has not found yet are the lexical errors of the text. -/
structure Stream.Shows (lexical : List (Located LexError)) (c : Cursor) (s : Stream) : Prop where
  previous : s.previous = c.previous
  current : s.current = c.current
  errors : s.errors = c.errors
  more : s.current.val ≠ .endOfInput → c.upcoming = s.scanner.valid
  last : s.current.val = .endOfInput →
    c.upcoming = [] ∧ s.scanner.rest = [] ∧ s.current.span = ⟨s.scanner.pos, s.scanner.pos⟩
  lexical : s.scanner.errors ++ s.scanner.scan.errors = lexical

namespace Stream.Shows

variable {lexical : List (Located LexError)} {c : Cursor} {s : Stream}

/-- The stream that takes the first of the tokens that are left. -/
theorem of_nextValid {scanner : Scanner} {t : Located Token} {ts : List (Located Token)}
    (previous : Located Token)
    (errors : List (Located SyntaxError)) (hvalid : scanner.valid = t :: ts)
    (hlexical : scanner.errors ++ scanner.scan.errors = lexical) :
    Shows lexical ⟨previous, t, ts, errors⟩ ⟨scanner.nextValid.2, previous,
      scanner.nextValid.1, errors⟩ := by
  have hyields := scanner.yields_nextValid
  by_cases hend : scanner.nextValid.1.val = .endOfInput
  · obtain ⟨hlast, hrest, hspan⟩ := hyields.last hend
    cases hvalid.symm.trans hlast
    exact ⟨rfl, rfl, rfl, fun h => absurd hend h, fun _ => ⟨rfl, hrest, hspan⟩,
      hyields.errors.trans hlexical⟩
  · cases hvalid.symm.trans (hyields.more hend).1
    exact ⟨rfl, rfl, rfl, fun _ => rfl, fun h => absurd h hend, hyields.errors.trans hlexical⟩

theorem advance (h : Shows lexical c s) : Shows lexical c.advance s.advance := by
  obtain ⟨t, ts, hvalid⟩ := s.scanner.valid_eq_cons
  have hshows := of_nextValid s.current s.errors hvalid h.lexical
  have hadvance : c.advance = ⟨s.current, t, ts, s.errors⟩ := by
    by_cases hend : s.current.val = .endOfInput
    · obtain ⟨hnone, hrest, hspan⟩ := h.last hend
      have hlast : s.scanner.valid = [s.current] := by
        rw [Scanner.valid, Scanner.scan, hrest, scanFrom_end skipTrivia_nil, ← hspan, ← hend]
        exact List.filter_cons_of_pos (by rw [hend]; decide)
      cases hvalid.symm.trans hlast
      simp only [Cursor.advance, hnone, h.current, h.errors]
    · rw [← h.more hend] at hvalid
      simp only [Cursor.advance, hvalid, h.current, h.errors]
  rw [hadvance]
  exact hshows

/-- Only the end of input has nothing behind it. -/
theorem upcoming_eq_nil_iff (h : Shows lexical c s) :
    c.upcoming = [] ↔ s.current.val = .endOfInput := by
  constructor
  · intro hnone
    by_contra hend
    obtain ⟨t, ts, hvalid⟩ := s.scanner.valid_eq_cons
    cases hnone.symm.trans ((h.more hend).trans hvalid)
  · exact fun hend => (h.last hend).1

theorem synchronize (h : Shows lexical c s) : Shows lexical c.synchronize s.synchronize := by
  induction hup : c.upcoming generalizing c s with
  | nil =>
    have hsame : c.synchronize = c := by rw [Cursor.synchronize, hup, Cursor.synchronizeFrom, ← hup]
    rw [hsame, Stream.synchronize, if_pos (h.upcoming_eq_nil_iff.1 hup)]
    exact h
  | cons t ts ih =>
    have hend : ¬ s.current.val = .endOfInput := by
      rw [← h.upcoming_eq_nil_iff, hup]
      exact List.cons_ne_nil t ts
    rw [Stream.synchronize, if_neg hend, Cursor.synchronize, hup,
      Cursor.synchronizeFrom, h.previous, h.current]
    split
    · rw [← hup]
      exact h
    · have hadvance : c.advance = ⟨c.current, t, ts, c.errors⟩ := by rw [Cursor.advance, hup]
      have hnext := ih h.advance (by rw [hadvance])
      rw [hadvance] at hnext
      exact hnext

/-- Both tell alike whether reading is still where it began, before the end of input. -/
theorem stays_iff (h : Shows lexical c s) (start : Span) :
    (c.current.span = start ∧ !c.atEnd) ↔ s.current.span = start ∧ s.current.val ≠ .endOfInput := by
  rw [h.current, Cursor.atEnd, Bool.not_eq_true', beq_eq_false_iff_ne]

theorem recover (h : Shows lexical c s) (start : Span) (e : Located SyntaxError) :
    Shows lexical (c.recover start e) (s.recover start e) := by
  have herror : Shows lexical { c with errors := e :: c.errors }
      { s with errors := e :: s.errors } :=
    ⟨h.previous, h.current, congrArg _ h.errors, h.more, h.last, h.lexical⟩
  have hsynchronized := herror.synchronize
  simp only [Cursor.recover, Stream.recover, hsynchronized.stays_iff start]
  split
  · exact hsynchronized.advance
  · exact hsynchronized

theorem remaining_le (h : Shows lexical c s) : c.remaining ≤ s.scanner.rest.length + 1 := by
  by_cases hend : s.current.val = .endOfInput
  · rw [Cursor.remaining, (h.last hend).1]
    exact Nat.zero_le _
  · have hlaid := laid_scanFrom s.scanner.pos s.scanner.rest (List.Subset.refl _)
    rw [Cursor.remaining, h.more hend]
    exact Nat.le_trans (List.length_filter_le _ _) hlaid.length_le

/-- At the end of input the scanner has found all the errors. -/
theorem scanner_errors (h : Shows lexical c s) (hend : c.current.val = .endOfInput) :
    s.scanner.errors = lexical := by
  rw [← h.current] at hend
  rw [← h.lexical, Scanner.scan, (h.last hend).2.1, scanFrom_end skipTrivia_nil, List.append_nil]

end Stream.Shows

/-- **What is read from a scanner is what is read from all the tokens.** -/
def OnDemand.simulation (lexical : List (Located LexError)) : Simulation Parser OnDemand where
  Matches x y := Tracks (Stream.Shows lexical) x y
  pure a := fun _ _ h => .ok a h
  bind := Tracks.bind
  outOfFuel _ := fun c _ _ => .outOfFuel c _
  error e := fun _ _ h => .error e h
  current := fun c s h => by
    show SameOutcome _ (.ok c.current c) (.ok s.current s)
    rw [h.current]
    exact .ok _ h
  lastSpan := fun c s h => by
    show SameOutcome _ (.ok c.previous.span c) (.ok s.previous.span s)
    rw [h.previous]
    exact .ok _ h
  next := fun c s h => by
    show SameOutcome _ (.ok c.current c.advance) (.ok s.current s.advance)
    rw [h.current]
    exact .ok _ h.advance
  ahead hf := fun c s h => hf _ _ h.remaining_le c s h
  recovering {_ x y} hx := fun c s h => by
    have houtcome := hx c s h
    simp only [recovering, Parser.recovering]
    generalize x c = r at houtcome
    generalize y s = r' at houtcome
    cases houtcome with
    | ok a h' => exact .ok (some a) h'
    | error e h' =>
      rw [h.current]
      exact .ok none (h'.recover _ e)
    | outOfFuel c r' => exact .outOfFuel c _

/-! ## Texts -/

theorem Stream.shows_ofText (source : String) :
    Stream.Shows (Token.scan source).errors (.ofText source) (.ofText source) := by
  have hvalid : Scanner.valid ⟨0, source.toList, []⟩ =
      (Token.scan source).tokens.filter (·.val != .invalid) := rfl
  obtain ⟨t, ts, hcons⟩ := Scanner.valid_eq_cons ⟨0, source.toList, []⟩
  have hcursor : Cursor.ofText source = ⟨⟨⟨0, 0⟩, .endOfInput⟩, t, ts, []⟩ := by
    rw [Cursor.ofText, Cursor.ofTokens, ← hvalid, hcons]
  rw [hcursor]
  exact .of_nextValid _ _ hcons rfl

/-- What is read from the tokens of a text is read from a scanner of it. -/
theorem OnDemand.statements_ofText {source : String} {program : Program} {c : Cursor}
    (h : Parser.statements (Parser.statementFuel (.ofText source)) (.ofText source) =
    .ok program c) :
    ∃ s, statements (m := OnDemand) (Stream.ofText source).fuel (.ofText source) = .ok program s ∧
      Stream.Shows (Token.scan source).errors c s := by
  have hshows := Stream.shows_ofText source
  have hfuel : Parser.statementFuel (.ofText source) ≤ (Stream.ofText source).fuel :=
    Nat.add_le_add_right (Nat.mul_le_mul_left 4 hshows.remaining_le) 4
  have houtcome := (OnDemand.simulation _).statements hfuel _ _ hshows
  change SameOutcome _ (Parser.statements _ _) _ at houtcome
  rw [h] at houtcome
  generalize statements (m := OnDemand) _ _ = r at houtcome ⊢
  cases houtcome with
  | ok _ hlast => exact ⟨_, rfl, hlast⟩

/-- What there is to report once the scanner is read: the lexical errors it has found, and then the
syntax errors. -/
def Stream.report (s : Stream) : List Notice :=
  s.scanner.errors.map Notice.ofLexError ++ s.errors.reverse.map Notice.ofSyntaxError

/-- Reads a program from a scanner. -/
def Program.readOnDemand (source : String) : Except (List Notice) Program :=
  match statements (m := OnDemand) (Stream.ofText source).fuel (.ofText source) with
  | .ok program s => if s.report.isEmpty then .ok program else .error s.report
  | .error _ s => .error s.report

/-- **Syntax errors neither hide nor repeat lexical errors.** What is reported when a text is read
from a scanner is the list of the errors that scanning all of it finds, and then the list of the
syntax errors. It is also what is reported when the text is scanned first. -/
theorem Program.lexical_errors_first (source : String) :
    Program.readOnDemand source = (Program.parse source).mapError (fun f =>
        (Token.scan source).errors.map Notice.ofLexError ++ f.syntactic.map Notice.ofSyntaxError) ∧
      Program.read source = (Program.readOnDemand source).mapError fun notices =>
        .malformed (.ofNotices source notices) := by
  obtain ⟨program, ⟨c, calls⟩, htraced, -, hend⟩ := Traced.ends_ofText source
  have hread := Traced.read_eq htraced (Nat.le_refl _)
  obtain ⟨s, hdemand, hshows⟩ := OnDemand.statements_ofText hread
  have hreport : s.report = (Token.scan source).errors.map Notice.ofLexError ++
      c.errors.reverse.map Notice.ofSyntaxError := by
    rw [Stream.report, hshows.scanner_errors hend, hshows.errors]
  have hparse : Program.parse source = if s.report.isEmpty then .ok program
      else .error ⟨(Token.scan source).errors, c.errors.reverse⟩ := by
    rw [Cursor.ofText] at hread
    simp only [Program.parse, hread, hreport, Bool.and_eq_true, List.isEmpty_iff,
      List.append_eq_nil_iff, List.map_eq_nil_iff, List.reverse_eq_nil_iff]
  have hdemanded : Program.readOnDemand source = if s.report.isEmpty then .ok program
      else .error s.report := by
    simp only [Program.readOnDemand, hdemand]
  rw [Program.read, hparse, hdemanded]
  split
  · exact ⟨rfl, rfl⟩
  · rw [hreport]
    exact ⟨rfl, rfl⟩

end Stackscript
