import Stackscript.Proofs.ScanBoundaries

/-!
# Where lexical errors stand

Every error that scanning reports is about some characters in a row: a comment or a string up to the
end of the text, an escape, a number, or one character. So its span begins and ends between
characters of the text.

* `Span.Covers`: the span of some characters in a row;
* `LexError.FoundIn`: an error about some characters of a text;
* `errors_skipTrivia`, `errors_scanString`, `errors_scanToken`: the errors of each reader;
* **`errors_scanFrom`**: the errors of a text.
-/

namespace Stackscript

/-- **The span of some characters in a row**, in a text that begins at an offset. -/
def Span.Covers (s : Span) (pos : Nat) (cs : List Char) : Prop :=
  ∃ before part after, cs = before ++ (part ++ after) ∧
    s = ⟨pos + byteLength before, pos + byteLength before + byteLength part⟩

theorem Span.covers_start (pos : Nat) (part after : List Char) :
    Span.Covers ⟨pos, pos + byteLength part⟩ pos (part ++ after) :=
  ⟨[], part, after, rfl, rfl⟩

/-- **An error about some characters of a text** that begins at an offset. An error about a number
is one that was found in reading a number. -/
structure LexError.FoundIn (pos : Nat) (cs : List Char) (e : Located LexError) : Prop where
  covers : e.span.Covers pos cs
  number : ∀ text, e.val = .invalidNumber text →
    ∃ start c rest, c.isDigit = true ∧ e ∈ (scanNumber start (c :: rest)).errors

/-- More characters may stand in front. -/
theorem LexError.FoundIn.behind {pos stop : Nat} {cs : List Char} {e : Located LexError}
    (h : LexError.FoundIn stop cs e) (piece : List Char) (hstop : stop = pos + byteLength piece) :
    LexError.FoundIn pos (piece ++ cs) e := by
  subst hstop
  refine ⟨?_, h.number⟩
  obtain ⟨before, part, after, rfl, hspan⟩ := h.covers
  refine ⟨piece ++ before, part, after, by rw [List.append_assoc], ?_⟩
  rw [hspan, byteLength_append, Nat.add_assoc pos]

/-- Of a gap, only a block comment without an end is reported. -/
theorem errors_skipTrivia (pos : Nat) (cs : List Char) :
    ∀ e ∈ (skipTrivia pos cs).errors, LexError.FoundIn pos cs e := by
  have hslash : '/'.utf8Size = 1 := rfl
  have hstar : '*'.utf8Size = 1 := rfl
  fun_induction skipTrivia pos cs with
  | case1 pos => exact List.forall_mem_nil _
  | case2 pos c cs _ ih =>
    intro e he
    exact (ih e he).behind [c] rfl
  | case3 pos body stop rest hline _ _ ih =>
    obtain ⟨text, hbody, hstop, -, -⟩ := lineComment_spec (pos + 2) body
    rw [hline] at hbody hstop
    intro e he
    rw [hbody]
    refine (ih e he).behind ('/' :: '/' :: text) ?_
    simp only [byteLength]
    omega
  | case4 pos body stop rest hblock _ _ ih =>
    obtain ⟨text, hbody, hstop, -⟩ := closedComment_spec hblock
    intro e he
    rw [hbody]
    refine (ih e he).behind ('/' :: '*' :: text) ?_
    simp only [byteLength]
    omega
  | case5 pos body stop rest hblock _ =>
    obtain ⟨hstop, -⟩ := blockComment_unclosed hblock
    have hpos : stop = pos + byteLength ('/' :: '*' :: body) := by
      simp only [byteLength]
      omega
    refine List.forall_mem_singleton.2 ⟨?_, fun _ h => by cases h⟩
    have hcovers := Span.covers_start pos ('/' :: '*' :: body) []
    rwa [List.append_nil, ← hpos] at hcovers
  | case6 pos c rest _ _ _ => exact List.forall_mem_nil _

theorem behind_opened {start pos : Nat} {opened : List Char}
    (hpos : pos = start + byteLength opened)
    (piece : List Char) : pos + byteLength piece = start + byteLength (opened ++ piece) := by
  rw [hpos, byteLength_append, Nat.add_assoc]

/-- A string literal that began at `start` is reported as a whole if it has no end, and so is each
unknown escape. -/
theorem errors_scanString (quote : Char) (start pos : Nat) (opened cs : List Char)
    (hpos : pos = start + byteLength opened) :
    ∀ e ∈ (scanString quote start pos cs).errors, LexError.FoundIn start (opened ++ cs) e := by
  fun_induction scanString quote start pos cs generalizing opened with
  | case1 pos =>
    subst hpos
    exact List.forall_mem_singleton.2 ⟨Span.covers_start start opened [], fun _ h => by cases h⟩
  | case2 pos cs next => exact List.forall_mem_nil _
  | case3 pos next _ =>
    refine List.forall_mem_singleton.2 ⟨?_, fun _ h => by cases h⟩
    rw [show next = _ from behind_opened hpos ['\\']]
    simpa using Span.covers_start start (opened ++ ['\\']) []
  | case4 pos e cs v _ next _ stop ih =>
    have hstop : stop = pos + byteLength ['\\', e] := Nat.add_assoc _ _ _
    intro f hf
    have hfound := ih _ (hstop.trans (behind_opened hpos _)) f hf
    rwa [List.append_assoc] at hfound
  | case5 pos e cs _ next _ stop ih =>
    have hstop : stop = pos + byteLength ['\\', e] := Nat.add_assoc _ _ _
    intro f hf
    obtain hescape | hlater := List.mem_append.1 hf
    · cases List.mem_singleton.1 hescape
      refine ⟨⟨opened, ['\\', e], cs, rfl, ?_⟩, fun _ h => by cases h⟩
      rw [← hpos, hstop]
    · have hfound := ih _ (hstop.trans (behind_opened hpos _)) f hlater
      rwa [List.append_assoc] at hfound
  | case6 pos c cs next _ _ ih =>
    intro f hf
    have hfound := ih _ (behind_opened hpos [c]) f hf
    rwa [List.append_assoc] at hfound

theorem errors_scanNumber (pos : Nat) {c : Char} (cs : List Char) (hc : c.isDigit = true) :
    ∀ e ∈ (scanNumber pos (c :: cs)).errors, LexError.FoundIn pos (c :: cs) e := by
  intro e he
  refine ⟨?_, fun text _ => ⟨pos, c, cs, hc, he⟩⟩
  simp only [scanNumber] at he
  split at he
  · cases he
  · cases List.mem_singleton.1 he
    have hcovers :=
      Span.covers_start pos (numberLexeme (c :: cs))
        ((c :: cs).drop (numberLexeme (c :: cs)).length)
    rwa [List.prefix_iff_eq_append.1 (numberLexeme_starts (c :: cs))] at hcovers

/-- **The errors of a token** are about its characters. -/
theorem errors_scanToken (pos : Nat) (c : Char) (cs : List Char) :
    ∀ e ∈ (scanToken pos c cs).errors, LexError.FoundIn pos (c :: cs) e := by
  unfold scanToken
  split
  · exact List.forall_mem_nil _
  · split
    · next hquote =>
      have hsize : c.utf8Size = 1 := by obtain rfl | rfl := hquote <;> rfl
      exact errors_scanString c pos (pos + 1) [c] cs (by rw [byteLength, hsize, byteLength])
    · split
      · next hdigit => exact errors_scanNumber pos cs hdigit
      · split
        · exact List.forall_mem_nil _
        · exact List.forall_mem_singleton.2 ⟨Span.covers_start pos [c] cs, fun _ h => by cases h⟩

/-- **The errors of a text** are about its characters. -/
theorem errors_scanFrom (pos : Nat) (cs : List Char) :
    ∀ e ∈ (scanFrom pos cs).errors, LexError.FoundIn pos cs e := by
  fun_induction scanFrom pos cs with
  | case1 pos cs errors start hskip =>
    have herrors := errors_skipTrivia pos cs
    rwa [hskip] at herrors
  | case2 pos cs errors start c rest hskip _ _ s tail ih =>
    have hgap := errors_skipTrivia pos cs
    obtain ⟨gap, hcs⟩ := skipTrivia_suffix pos cs
    have hstart := skipTrivia_pos pos cs
    rw [hskip] at hgap hcs hstart
    change gap ++ c :: rest = cs at hcs
    rw [← hcs, byteLength_append] at hstart
    have hstart : start = pos + byteLength gap := by
      simp only at hstart
      omega
    obtain ⟨lexeme, -, hchars, hpos⟩ := (scanToken_reads start c rest).chars
    intro e he
    simp only [List.mem_append] at he
    obtain (he | he) | he := he
    · exact hgap e he
    · rw [← hcs]
      exact (errors_scanToken start c rest e he).behind gap hstart
    · rw [← hcs, hchars, ← List.append_assoc]
      refine (ih e he).behind (gap ++ lexeme) ?_
      rw [hpos, hstart, byteLength_append, Nat.add_assoc]

end Stackscript
