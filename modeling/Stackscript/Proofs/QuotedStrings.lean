import Stackscript.Proofs.ScanBoundaries
import Stackscript.Value.Text
import Mathlib.Tactic.TFAE

/-!
# Quoted strings as literals

A string in quotes, as messages show it, is a string literal of the language. A character is written
as itself, by one of the short escapes, which the scanner knows too, or by its code point, which it
does not: there the scanner reports an unknown escape and reads the letter `u`, the braces and the
digits as they stand. So a quoted string is one token in every case, and its value is the string if
no character is written by its code point.

* `Text.IsHexWritten`, `Text.quoteChar_cases`: how a character is written;
* `Text.readBack`, `Text.flatMap_readBack_eq_self`: the characters that are read for it;
* `scanString_quoteChar`, `scanString_quoted`: one character, and all of them up to the closing
  quote;
* **`Token.scan_quoted`**: a quoted string as a text.
-/

namespace Stackscript

/-! ## How characters are written -/

namespace Text

/-- The character is written by its code point. -/
def IsHexWritten (c : Char) : Prop := quoteChar c = hexEscape c

instance : DecidablePred IsHexWritten := fun c => decEq (quoteChar c) (hexEscape c)

/-- **A character is written as itself, by a short escape or by its code point.** -/
theorem quoteChar_cases (c : Char) :
    (quoteChar c = [c] ∧ c ≠ '"' ∧ c ≠ '\\') ∨
      (∃ e, quoteChar c = ['\\', e] ∧ escapeValue? e = some c) ∨ IsHexWritten c := by
  unfold IsHexWritten
  rw [quoteChar.eq_def]
  split
  · exact .inr (.inl ⟨'0', rfl, rfl⟩)
  · exact .inr (.inl ⟨'t', rfl, rfl⟩)
  · exact .inr (.inl ⟨'r', rfl, rfl⟩)
  · exact .inr (.inl ⟨'n', rfl, rfl⟩)
  · exact .inr (.inl ⟨'\\', rfl, rfl⟩)
  · exact .inr (.inl ⟨'"', rfl, rfl⟩)
  · next hbackslash hquote =>
    unfold plainChar
    split
    · exact .inl ⟨rfl, hquote, hbackslash⟩
    · exact .inr (.inr rfl)

theorem length_hexEscape (c : Char) : 4 < (hexEscape c).length := by
  have hdigits : 0 < (Nat.toDigits 16 c.toNat).length := Nat.length_toDigits_pos
  simp only [hexEscape, List.length_append, List.length_cons, List.length_nil]
  omega

theorem mem_toDigits {d : Char} {n : Nat} (h : d ∈ Nat.toDigits 16 n) : d ≠ '"' ∧ d ≠ '\\' := by
  have hdigit : ∀ k < 16, k.digitChar ≠ '"' ∧ k.digitChar ≠ '\\' := by decide
  induction n using Nat.strongRecOn with
  | ind n ih =>
    rw [Nat.toDigits_eq_if (by decide)] at h
    split at h
    · next hn =>
      rw [List.mem_singleton.1 h]
      exact hdigit n hn
    · next hn =>
      obtain hfirst | hlast := List.mem_append.1 h
      · exact ih (n / 16) (by omega) hfirst
      · rw [List.mem_singleton.1 hlast]
        exact hdigit (n % 16) (Nat.mod_lt n (by decide))

/-- An escape by a code point begins like an escape that the scanner does not know, and has no quote
in it. -/
theorem hexEscape_eq (c : Char) :
    ∃ body, hexEscape c = '\\' :: 'u' :: body ∧ ∀ d ∈ body, d ≠ '"' ∧ d ≠ '\\' := by
  refine ⟨'\x7b' :: (Nat.toDigits 16 c.toNat ++ ['\x7d']), rfl, ?_⟩
  intro d hd
  obtain rfl | hd := List.mem_cons.1 hd
  · decide
  obtain hdigit | hlast := List.mem_append.1 hd
  · exact mem_toDigits hdigit
  · rw [List.mem_singleton.1 hlast]
    decide

/-- The characters that are read where a character is written. -/
def readBack (c : Char) : List Char := if IsHexWritten c then (hexEscape c).tail else [c]

theorem readBack_of_ne {c : Char} (h : ¬ IsHexWritten c) : readBack c = [c] := if_neg h

theorem length_readBack (c : Char) :
    1 ≤ (readBack c).length ∧ ((readBack c).length = 1 ↔ ¬ IsHexWritten c) := by
  unfold readBack
  split
  · next h =>
    have := length_hexEscape c
    simp only [List.length_tail, h, not_true_eq_false, iff_false]
    omega
  · next h => simp [h]

theorem length_le_flatMap_readBack (s : List Char) : s.length ≤ (s.flatMap readBack).length := by
  induction s with
  | nil => simp
  | cons c s ih =>
    have := (length_readBack c).1
    simp only [List.flatMap_cons, List.length_append, List.length_cons]
    omega

/-- **A string is read back if no character is written by its code point**, as such a character is
read as several. -/
theorem flatMap_readBack_eq_self (s : List Char) :
    s.flatMap readBack = s ↔ ∀ c ∈ s, ¬ IsHexWritten c := by
  induction s with
  | nil => simp
  | cons c s ih =>
    rw [List.forall_mem_cons, ← ih, List.flatMap_cons]
    constructor
    · intro h
      have hlength := congrArg List.length h
      have hrest := length_le_flatMap_readBack s
      have hc := length_readBack c
      rw [List.length_append, List.length_cons] at hlength
      have hplain : ¬ IsHexWritten c := hc.2.1 (by omega)
      rw [readBack_of_ne hplain] at h
      exact ⟨hplain, List.append_cancel_left h⟩
    · rintro ⟨hplain, hs⟩
      rw [readBack_of_ne hplain, hs]
      rfl

end Text

/-! ## Reading them -/

section Reading

open Text

variable {start pos stop : Nat} {c : Char} {cs value rest : List Char}
  {errors : List (Located LexError)}

/-- Characters that are neither quotes nor escapes stand for themselves. -/
theorem scanString_plain {text : List Char} (htext : ∀ d ∈ text, d ≠ '"' ∧ d ≠ '\\')
    (h : scanString '"' start (pos + byteLength text) cs = ⟨some value, errors, stop, rest⟩) :
    scanString '"' start pos (text ++ cs) = ⟨some (text ++ value), errors, stop, rest⟩ := by
  induction text generalizing pos with
  | nil => exact h
  | cons d text ih =>
    rw [List.forall_mem_cons] at htext
    rw [byteLength, ← Nat.add_assoc] at h
    rw [List.cons_append, scanString_char htext.1.1 htext.1.2, ih htext.2 h]
    rfl

/-- **One character of a quoted string** is read, with an error if it is written by its code
point. -/
theorem scanString_quoteChar (h : scanString '"' start (pos + byteLength (quoteChar c)) cs =
      ⟨some value, errors, stop, rest⟩) :
    ∃ found, scanString '"' start pos (quoteChar c ++ cs) =
        ⟨some (readBack c ++ value), found ++ errors, stop, rest⟩ ∧
          (found = [] ↔ ¬ IsHexWritten c) := by
  have hsize : '\\'.utf8Size = 1 := rfl
  by_cases hhex : IsHexWritten c
  · obtain ⟨body, hbody, hplain⟩ := hexEscape_eq c
    have hquote : quoteChar c = '\\' :: 'u' :: body := Eq.trans hhex hbody
    have hread : readBack c = 'u' :: body := by rw [readBack, if_pos hhex, hbody, List.tail_cons]
    refine ⟨[⟨⟨pos, pos + 1 + 'u'.utf8Size⟩, .unknownEscape 'u'⟩], ?_, by simp [hhex]⟩
    rw [hquote, byteLength, byteLength, ← Nat.add_assoc, ← Nat.add_assoc, hsize] at h
    rw [hquote, hread, List.cons_append, List.cons_append, scanString_unknown (by decide) rfl,
      scanString_plain hplain h]
    rfl
  · refine ⟨[], ?_, by simp [hhex]⟩
    rw [readBack_of_ne hhex]
    obtain ⟨hquote, hplain⟩ | ⟨e, hquote, hvalue⟩ :=
      (quoteChar_cases c).imp_right (Or.resolve_right · hhex)
    · rw [hquote] at h ⊢
      exact scanString_plain (List.forall_mem_singleton.2 hplain) h
    · rw [hquote, byteLength, byteLength, byteLength, Nat.add_zero, ← Nat.add_assoc, hsize] at h
      rw [hquote, List.cons_append, List.cons_append, List.nil_append,
        scanString_escape (by decide) hvalue, h]
      rfl

/-- **A quoted string is read up to its closing quote.** -/
theorem scanString_quoted (start pos : Nat) (s rest : List Char) :
    ∃ errors, scanString '"' start pos (s.flatMap quoteChar ++ '"' :: rest) =
        ⟨some (s.flatMap readBack), errors, pos + byteLength (s.flatMap quoteChar) + 1, rest⟩ ∧
      (errors = [] ↔ ∀ c ∈ s, ¬ IsHexWritten c) := by
  induction s generalizing pos with
  | nil => exact ⟨[], scanString_quote, by simp⟩
  | cons c s ih =>
    obtain ⟨errors, hscan, hnone⟩ := ih (pos + byteLength (quoteChar c))
    obtain ⟨found, hfound, hfirst⟩ := scanString_quoteChar hscan
    refine ⟨found ++ errors, ?_, ?_⟩
    · rw [List.flatMap_cons, List.append_assoc, hfound, byteLength_append,
        Nat.add_assoc pos, List.flatMap_cons]
    · rw [List.append_eq_nil_iff, hfirst, hnone, List.forall_mem_cons]

end Reading

/-- **Quoted strings are string literals.** The text that shows a string is scanned as one string
token, which spans the text, and the end of input. That the value of the token is the string, that
no error is found, and that no character is written by its code point all come to the same. -/
theorem Token.scan_quoted (h : Heap) (s : String) :
    ∃ (value : String) (errors : List (Located LexError)) (size : Nat),
      size = (h.quote (.string s)).utf8ByteSize ∧
      Token.scan (h.quote (.string s)) = ⟨[⟨⟨0, size⟩, .string value⟩, ⟨⟨size, size⟩, .endOfInput⟩],
      errors⟩ ∧ List.TFAE [value = s ∧ errors = [], value = s, errors = [],
        ∀ c ∈ s.toList, Text.quoteChar c ≠ Text.hexEscape c] := by
  obtain ⟨errors, hstring, hnone⟩ := scanString_quoted 0 1 s.toList []
  have hself : String.ofList (s.toList.flatMap Text.readBack) = s ↔
      ∀ c ∈ s.toList, ¬ Text.IsHexWritten c := by
    rw [← Text.flatMap_readBack_eq_self, ← String.toList_inj, String.toList_ofList]
  refine ⟨.ofList (s.toList.flatMap Text.readBack), errors,
    1 + byteLength (s.toList.flatMap Text.quoteChar) + 1, ?_, ?_, ?_⟩
  · rw [Heap.quote, Text.quoted, utf8ByteSize_ofList, List.cons_append, byteLength,
      byteLength_append, Nat.add_assoc]
    rfl
  · have htoken : scanToken 0 '"' (s.toList.flatMap Text.quoteChar ++ ['"']) =
        ⟨.string (.ofList (s.toList.flatMap Text.readBack)), errors,
          1 + byteLength (s.toList.flatMap Text.quoteChar) + 1, []⟩ := by
      have hsymbol : symbolAt? '"' (s.toList.flatMap Text.quoteChar ++ ['"']) = none := rfl
      simp only [scanToken, hsymbol, true_or, if_true]
      rw [hstring]
    rw [Token.scan, Heap.quote, Text.quoted, String.toList_ofList, List.cons_append,
      scanFrom_token (skipTrivia_token rfl rfl) htoken, scanFrom_end skipTrivia_nil]
    simp
  · tfae_have 2 ↔ 4 := hself
    tfae_have 3 ↔ 4 := hnone
    tfae_have 1 ↔ 4 := by rw [hself, hnone, and_self]; exact Iff.rfl
    tfae_finish

end Stackscript
