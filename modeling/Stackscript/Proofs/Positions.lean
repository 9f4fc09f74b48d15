import Stackscript.Proofs.ScanLossless
import Stackscript.Source.Position
import Mathlib.Data.List.DropRight

/-!
# Lines and columns are counts

The line index of a text is built once, and an offset is looked up in it. What is found is what a
reader would count from the start of the text: the line feeds before the offset, and the characters
behind the last of them.

* `lineEnds`: the line feeds among the first bytes of a text, `lastLine`: the characters behind the
  last line feed;
* `lineAt_cut`: the number of the line at any offset, `lineAt_cut_behind`: the line at a character
  boundary;
* `LineIndex.lineAt_of_found`, `LineIndex.lineAt_bisect`: the line can be found by halving the
  starts of lines;
* `Position.ColumnAt`, `Position.CountedAt`, **`LineIndex.countedAt_position`**;
* `Position.Before`, **`LineIndex.before_position`**: positions of character boundaries keep their
  order.
-/

namespace Stackscript

/-! ## Character boundaries -/

theorem byteLength_toList (source : String) : byteLength source.toList = source.utf8ByteSize := by
  rw [← utf8ByteSize_ofList, String.ofList_toList]

/-- The character boundaries of a text are the offsets behind its first characters. -/
theorem exists_before_of_isValid {source : String} {offset : Nat}
    (h : String.Pos.Raw.IsValid source ⟨offset⟩) :
    ∃ before, before <+: source.toList ∧ byteLength before = offset := by
  rw [String.Pos.Raw.isValid_iff_exists_append] at h
  obtain ⟨s, t, rfl, hs⟩ := h
  refine ⟨s.toList, ⟨t.toList, String.toList_append.symm⟩, ?_⟩
  rw [byteLength_toList]
  exact (congrArg String.Pos.Raw.byteIdx hs).symm

/-! ## Line feeds among bytes -/

/-- The number of line feeds among the first `n` bytes of a text. -/
def lineEnds (source : String) (n : Nat) : Nat := (source.toByteArray.data.toList.take n).count 10

theorem toList_data_toByteArray (source : String) :
    source.toByteArray.data.toList = source.toList.flatMap String.utf8EncodeChar := by
  rw [← String.utf8Encode_toList, List.utf8Encode.eq_1, List.data_toByteArray]

/-- A byte of a longer encoding is at least `128`, so a line feed is the only character with its
byte. -/
theorem line_feed_not_mem_utf8EncodeChar {c : Char} (h : c ≠ '\n') :
    10 ∉ String.utf8EncodeChar c := by
  have hval : c.val.toNat ≠ 10 := fun hc => h (Char.ext (UInt32.toNat_inj.1 hc))
  intro hmem
  rw [String.utf8EncodeChar.eq_1] at hmem
  split_ifs at hmem <;>
    simp only [List.mem_cons, List.not_mem_nil, or_false, ← UInt8.toNat_inj, UInt8.toNat_ofNat',
      UInt8.toNat_ofNat] at hmem <;>
    omega

namespace LineIndex

/-! ## The line at an offset -/

theorem start_cut (start : Nat) (seen : List Char) (pos : Nat) (cs : List Char) :
    (cut start seen pos cs).1.start = start := by
  induction cs generalizing seen pos with
  | nil => rfl
  | cons c cs ih =>
    rw [cut]
    split
    · rfl
    · exact ih _ _

/-- The number of the line at an offset grows by the line feeds before the offset. -/
theorem lineAt_cut (offset number start : Nat) (seen : List Char) (pos : Nat) (cs : List Char) :
    (lineAt offset number (cut start seen pos cs).1 (cut start seen pos cs).2).1 =
      number + ((cs.flatMap String.utf8EncodeChar).take (offset - pos)).count 10 := by
  induction cs generalizing number start seen pos with
  | nil => simp [cut, lineAt]
  | cons c cs ih =>
    rw [cut, List.flatMap_cons]
    split
    case isTrue hc =>
      subst hc
      have hbytes : String.utf8EncodeChar '\n' = [10] := by decide
      rw [hbytes, List.singleton_append, lineAt, start_cut]
      have hsize : '\n'.utf8Size = 1 := by decide
      rw [hsize]
      split
      case isTrue hnext =>
        rw [ih, show offset - pos = offset - (pos + 1) +
          1 by omega, List.take_succ_cons, List.count_cons_self]
        omega
      case isFalse hnext => simp [show offset - pos = 0 by omega]
    case isFalse hc =>
      -- the offset may cut the bytes of the character, but none of them is a line feed
      have hnone : ((String.utf8EncodeChar c).take (offset - pos)).count 10 = 0 :=
        List.count_eq_zero.2 fun h => line_feed_not_mem_utf8EncodeChar hc (List.mem_of_mem_take h)
      rw [ih, List.take_append, List.count_append, hnone, String.length_utf8EncodeChar,
        Nat.sub_sub, Nat.zero_add]

/-- The characters behind the last line feed. -/
def lastLine (before : List Char) : List Char := before.rtakeWhile (· != '\n')

theorem lastLine_line_feed (cs ds : List Char) : lastLine (cs ++ '\n' :: ds) = lastLine ds := by
  induction ds using List.reverseRecOn with
  | nil => simp [lastLine]
  | append_singleton ds d ih =>
    rw [← List.cons_append, ← List.append_assoc, lastLine, lastLine,
      List.rtakeWhile_concat, List.rtakeWhile_concat]
    rw [lastLine, lastLine] at ih
    rw [ih]

theorem lastLine_append {cs ds : List Char} (h : '\n' ∉ ds) :
    lastLine (cs ++ ds) = lastLine cs ++ ds := by
  induction ds using List.reverseRecOn with
  | nil => simp
  | append_singleton ds d ih =>
    simp only [List.mem_append, List.mem_singleton, not_or] at h
    have hd : (d != '\n') = true := by simpa using Ne.symm h.2
    rw [← List.append_assoc, lastLine, List.rtakeWhile_concat_pos (· != '\n') _ _ hd, ← lastLine,
      ih h.1, List.append_assoc]

/-- At an offset that is not behind what was read, the line is the current one. -/
theorem lineAt_cut_of_le {offset pos : Nat} (number start : Nat) (seen cs : List Char)
    (h : offset ≤ pos) :
    ∃ rest, lineAt offset number (cut start seen pos cs).1 (cut start seen pos cs).2 =
      (number, ⟨start, seen.reverse ++ rest⟩) := by
  induction cs generalizing seen pos with
  | nil => exact ⟨[], by rw [cut, lineAt, List.append_nil]⟩
  | cons c cs ih =>
    have hsize := c.utf8Size_pos
    rw [cut]
    split
    · refine ⟨[c], ?_⟩
      rw [lineAt, start_cut, if_neg (by omega), List.reverse_cons]
    · obtain ⟨rest, hrest⟩ := ih (c :: seen) (show offset ≤ pos + c.utf8Size by omega)
      rw [List.reverse_cons, List.append_assoc] at hrest
      exact ⟨c :: rest, hrest⟩

/-- At a character boundary, the line starts with the characters behind the last line feed before
the boundary. -/
theorem lineAt_cut_behind (number start : Nat)
    (seen before after : List Char) (hseen : '\n' ∉ seen) :
    let pos := start + byteLength seen.reverse
    let line := lastLine (seen.reverse ++ before)
    ∃ rest, lineAt (pos + byteLength before) number (cut start seen pos (before ++ after)).1
        (cut start seen pos (before ++ after)).2 =
      (number + before.count '\n', ⟨pos + byteLength before - byteLength line, line ++ rest⟩) := by
  intro pos line
  -- the current line starts at `start` and has no line feed yet; a line feed in `before` starts the
  -- next one
  induction before generalizing number start seen with
  | nil =>
    have hline : line = seen.reverse := by
      rw [show line = lastLine ([] ++ seen.reverse) from congrArg lastLine (List.append_nil _)]
      exact lastLine_append (mt List.mem_reverse.1 hseen)
    obtain ⟨rest, hrest⟩ := lineAt_cut_of_le number start seen after (Nat.le_refl pos)
    refine ⟨rest, ?_⟩
    rw [hline, byteLength, Nat.add_zero, List.nil_append, hrest, List.count_nil,
      Nat.add_zero, Nat.add_sub_cancel]
  | cons c before ih =>
    by_cases hc : c = '\n'
    · subst hc
      obtain ⟨rest, hrest⟩ := ih (number + 1) (pos + '\n'.utf8Size) [] (by simp)
      refine ⟨rest, ?_⟩
      rw [List.reverse_nil, byteLength, Nat.add_zero, List.nil_append, Nat.add_assoc pos] at hrest
      rw [List.cons_append, cut, if_pos rfl, lineAt, start_cut, byteLength, if_pos (by omega),
        hrest, List.count_cons_self, show line = lastLine before from lastLine_line_feed _ _,
        Nat.add_right_comm, Nat.add_assoc number]
    · obtain ⟨rest, hrest⟩ := ih number start (c :: seen) (by simpa [Ne.symm hc] using hseen)
      refine ⟨rest, ?_⟩
      have hpos : start + byteLength (c :: seen).reverse = pos + c.utf8Size := by
        rw [List.reverse_cons, byteLength_append, byteLength, byteLength,
          Nat.add_zero, ← Nat.add_assoc]
      have hline : (c :: seen).reverse ++ before = seen.reverse ++ c :: before := by simp
      rw [hpos, hline, Nat.add_assoc pos] at hrest
      rw [List.cons_append, cut, if_neg hc, byteLength, hrest, List.count_cons_of_ne hc]

/-! ## Searching for the line -/

/-- What a search for an offset among increasing ones tells: where the offset stands, or where it
would have to be put in. -/
inductive Found (starts : List Nat) (offset : Nat) : Except Nat Nat → Prop where
  | here {i : Nat} : starts[i]? = some offset → Found starts offset (.ok i)
  | between {i : Nat} : i ≤ starts.length → (∀ k s, starts[k]? = some s → k < i → s < offset) →
      (∀ k s, starts[k]? = some s → i ≤ k → offset < s) → Found starts offset (.error i)

/-- Searches by halving the indices from `low` to before `high`. -/
def bisect (starts : List Nat) (offset low high : Nat) : Except Nat Nat :=
  if low < high then
    let middle := (low + high) / 2
    let s := starts[middle]?.getD 0
    if s = offset then .ok middle
    else if s < offset then bisect starts offset (middle + 1) high
    else bisect starts offset low middle
  else .error low
termination_by high - low

theorem lt_of_increasing {starts : List Nat} (h : starts.Pairwise (· < ·)) {i k s t : Nat}
    (hs : starts[i]? = some s) (ht : starts[k]? = some t) (hik : i < k) : s < t := by
  obtain ⟨hi, rfl⟩ := List.getElem?_eq_some_iff.1 hs
  obtain ⟨hk, rfl⟩ := List.getElem?_eq_some_iff.1 ht
  exact List.pairwise_iff_getElem.1 h i k hi hk hik

theorem getElem?_eq_some_getD {starts : List Nat} {i : Nat} (h : i < starts.length) :
    starts[i]? = some (starts[i]?.getD 0) := by
  rw [List.getElem?_eq_getElem h, Option.getD_some]

/-- **Halving finds an offset.** What stands before `low` is smaller, and what stands from `high` on
is larger. -/
theorem found_bisect {starts : List Nat} {offset low high : Nat} (h : starts.Pairwise (· < ·))
    (hle : low ≤ high) (hhigh : high ≤ starts.length)
    (hbelow : ∀ k s, starts[k]? = some s → k < low → s < offset)
    (habove : ∀ k s, starts[k]? = some s → high ≤ k → offset < s) :
    Found starts offset (bisect starts offset low high) := by
  fun_induction bisect starts offset low high with
  | case1 low high hlt middle s heq =>
    rw [← heq]
    exact .here (getElem?_eq_some_getD (by omega))
  | case2 low high hlt middle s hne hsmall ih =>
    have hmiddle : starts[middle]? = some s := getElem?_eq_some_getD (by omega)
    refine ih (by omega) hhigh (fun k t ht hk => ?_) habove
    rcases Nat.lt_or_eq_of_le (Nat.le_of_lt_succ hk) with hk | rfl
    · exact Nat.lt_trans (lt_of_increasing h ht hmiddle hk) hsmall
    · cases ht.symm.trans hmiddle
      exact hsmall
  | case3 low high hlt middle s hne hsmall ih =>
    have hmiddle : starts[middle]? = some s := getElem?_eq_some_getD (by omega)
    have hlarge : offset < s := by omega
    refine ih (by omega) (by omega) hbelow fun k t ht hk => ?_
    rcases Nat.lt_or_eq_of_le hk with hk | rfl
    · exact Nat.lt_trans hlarge (lt_of_increasing h hmiddle ht hk)
    · cases hmiddle.symm.trans ht
      exact hlarge
  | case4 low high hlt =>
    obtain rfl : low = high := by omega
    exact .between hhigh hbelow habove

/-- The line at an offset starts at or before the offset, and the line that follows behind it. -/
theorem lineAt_eq {offset i : Nat} {line : Line} (number : Nat) (l : Line) (ls : List Line)
    (h : ((l :: ls).map Line.start).Pairwise (· < ·)) (hline : (l :: ls)[i]? = some line)
    (hstart : line.start ≤ offset)
    (hnext : ∀ next, (l :: ls)[i + 1]? = some next → offset < next.start) :
    lineAt offset number l ls = (number + i, line) := by
  induction ls generalizing number l i with
  | nil =>
    obtain ⟨rfl, rfl⟩ : i = 0 ∧ l = line := by simpa [List.getElem?_singleton] using hline
    rfl
  | cons l' ls ih =>
    cases i with
    | zero =>
      cases hline
      rw [lineAt, if_neg (Nat.not_le.2 (hnext l' rfl))]
      rfl
    | succ i =>
      have hsorted := (List.pairwise_cons.1 h).2
      have hle : l'.start ≤ line.start := by
        rcases Nat.eq_zero_or_pos i with rfl | hi
        · cases hline
          exact Nat.le_refl _
        · refine Nat.le_of_lt (lt_of_increasing hsorted (i := 0) (k := i) rfl ?_ hi)
          rw [List.getElem?_map]
          exact congrArg (Option.map Line.start) hline
      rw [lineAt, if_pos (Nat.le_trans hle hstart), ih (number + 1) l' hsorted hline hnext]
      simp only [Prod.mk.injEq, and_true]
      omega

/-- The lines of a text start one behind the other. -/
theorem increasing_cut {start pos : Nat} (seen cs : List Char) (h : start ≤ pos) :
    (∀ l ∈ (cut start seen pos cs).2, pos < l.start) ∧
      ((cut start seen pos cs).2.map Line.start).Pairwise (· < ·) := by
  induction cs generalizing start seen pos with
  | nil => exact ⟨List.forall_mem_nil _, .nil⟩
  | cons c cs ih =>
    have hsize := c.utf8Size_pos
    rw [cut]
    split
    · obtain ⟨hbehind, hrest⟩ := ih [] (Nat.le_refl (pos + c.utf8Size))
      refine ⟨List.forall_mem_cons.2 ⟨?_, fun l hl => ?_⟩, List.pairwise_cons.2 ⟨?_, hrest⟩⟩
      · rw [start_cut]
        omega
      · have := hbehind l hl
        omega
      · rw [start_cut]
        exact List.forall_mem_map.2 hbehind
    · obtain ⟨hbehind, hrest⟩ := ih (c :: seen) (show start ≤ pos + c.utf8Size by omega)
      exact ⟨fun l hl => by have := hbehind l hl; omega, hrest⟩

/-- The lines in order. -/
def lines (index : LineIndex) : List Line := index.first :: index.others

/-- The offsets at which the lines start. -/
def starts (index : LineIndex) : List Nat := index.lines.map Line.start

theorem start_first (source : String) : (ofText source).first.start = 0 := start_cut ..

theorem increasing_starts (source : String) : (ofText source).starts.Pairwise (· < ·) := by
  obtain ⟨hbehind, hrest⟩ := increasing_cut [] source.toList (Nat.le_refl 0)
  refine List.pairwise_cons.2 ⟨List.forall_mem_map.2 fun l hl => ?_, hrest⟩
  have := hbehind l hl
  rwa [start_first]

/-- The index of the line of an offset that a search has told. -/
def foundLine : Except Nat Nat → Nat
  | .ok i => i
  | .error next => next - 1

/-- **Any search finds the line at an offset.** -/
theorem lineAt_of_found {source : String} {offset : Nat} {r : Except Nat Nat}
    (h : Found (ofText source).starts offset r) : ∃ line,
    (ofText source).lines[foundLine r]? = some line ∧
      lineAt offset 1 (ofText source).first (ofText source).others = (1 + foundLine r, line) := by
  have hsorted := increasing_starts source
  have hstarts {k : Nat} {l : Line} (hl : (ofText source).lines[k]? = some l) :
      (ofText source).starts[k]? = some l.start := by
    rw [starts, List.getElem?_map, hl]
    rfl
  cases h with
  | @here i hi =>
    obtain ⟨line, hline, hstart⟩ : ∃ line, (ofText source).lines[i]? = some line ∧
        line.start = offset := by
      simpa [starts, List.getElem?_map] using hi
    refine ⟨line, hline, lineAt_eq 1 _ _ hsorted hline (Nat.le_of_eq hstart) fun next hnext => ?_⟩
    exact lt_of_increasing hsorted hi (hstarts hnext) (Nat.lt_succ_self i)
  | @between next hle hbelow habove =>
    -- the first line starts at `0`, so that there is a line before the place
    have hpos : 0 < next := by
      refine Nat.pos_of_ne_zero fun hzero => ?_
      exact absurd (habove 0 _ (hstarts rfl) (Nat.le_of_eq hzero)) (by rw [start_first]; omega)
    obtain ⟨i, rfl⟩ : ∃ i, next = i + 1 := ⟨next - 1, by omega⟩
    obtain ⟨line, hline⟩ : ∃ line, (ofText source).lines[i]? = some line :=
      ⟨_, List.getElem?_eq_getElem (by rwa [starts, List.length_map] at hle)⟩
    have hstart := hbelow i _ (hstarts hline) (Nat.lt_succ_self i)
    refine ⟨line, hline, lineAt_eq 1 _ _ hsorted hline (Nat.le_of_lt hstart) fun l hl => ?_⟩
    exact habove (i + 1) _ (hstarts hl) (Nat.le_refl _)

/-- **Halving finds the line at an offset.** -/
theorem lineAt_bisect (source : String) (offset : Nat) :
    let starts := (ofText source).starts
    let i := foundLine (bisect starts offset 0 starts.length)
    ∃ line, (ofText source).lines[i]? = some line ∧
      lineAt offset 1 (ofText source).first (ofText source).others = (1 + i, line) :=
  lineAt_of_found <| found_bisect (increasing_starts source) (Nat.zero_le _) (Nat.le_refl _)
    (fun _ _ _ hk => absurd hk (Nat.not_lt_zero _))
    fun _ _ hs hk => absurd (List.getElem?_eq_none hk) (by simp [hs])

/-! ## The column -/

theorem charsIn_append (cs rest : List Char) :
    charsIn (byteLength cs) (cs ++ rest) = some cs.length := by
  induction cs with
  | nil => rw [byteLength, charsIn, List.length_nil]
  | cons c cs ih =>
    have hsize := c.utf8Size_pos
    obtain ⟨n, hn⟩ : ∃ n, byteLength (c :: cs) = n + 1 :=
      ⟨byteLength (c :: cs) - 1, by rw [byteLength]; omega⟩
    rw [hn, List.cons_append, charsIn, ← hn, if_pos (by rw [byteLength]; omega), byteLength,
      Nat.add_sub_cancel_left, ih, Option.map_some, List.length_cons]

theorem byteLength_lastLine_le (before : List Char) :
    byteLength (lastLine before) ≤ byteLength before := by
  obtain ⟨earlier, h⟩ := List.rtakeWhile_suffix (· != '\n') before
  have hbytes := byteLength_append earlier (lastLine before)
  rw [show earlier ++ lastLine before = before from h] at hbytes
  omega

theorem size_ofText (source : String) : (ofText source).size = source.utf8ByteSize := rfl

/-- **The position of a character boundary.** -/
theorem position_behind {source : String} {before : List Char} (h : before <+: source.toList) :
    (ofText source).position (byteLength before) =
      ⟨1 + before.count '\n', (lastLine before).length + 1⟩ := by
  obtain ⟨after, hafter⟩ := h
  obtain ⟨rest, hrest⟩ := lineAt_cut_behind 1 0 [] before after (by simp)
  rw [List.reverse_nil, byteLength, Nat.zero_add, Nat.zero_add, List.nil_append, hafter] at hrest
  have hle : min (byteLength before) (ofText source).size = byteLength before := by
    rw [size_ofText, ← byteLength_toList, ← hafter, byteLength_append]
    omega
  have hline := byteLength_lastLine_le before
  rw [position, hle]
  simp only [ofText, hrest]
  rw [Nat.sub_sub_self hline, charsIn_append]
  rfl

end LineIndex

/-- The column of a character boundary: the characters behind the last line feed before it, counted
from one. -/
def Position.ColumnAt (source : String) (offset column : Nat) : Prop :=
  ∃ before, before <+: source.toList ∧ byteLength before = offset ∧
    column = 1 + (LineIndex.lastLine before).length

/-- **The direct count.** An offset past the end stands for the end:

* `line`: the line feeds before the offset, counted from one;
* `column`: at a character boundary, the column is the one of the boundary. -/
structure Position.CountedAt (source : String) (offset : Nat) (p : Position) : Prop where
  line : p.line = 1 + lineEnds source (min offset source.utf8ByteSize)
  column : String.Pos.Raw.IsValid source ⟨min offset source.utf8ByteSize⟩ →
    Position.ColumnAt source (min offset source.utf8ByteSize) p.column

/-- A character boundary is not past the end. -/
theorem Position.CountedAt.at_boundary {source : String} {offset : Nat} {p : Position}
    (h : p.CountedAt source offset) (hvalid : String.Pos.Raw.IsValid source ⟨offset⟩) :
    p.line = 1 + lineEnds source offset ∧ Position.ColumnAt source offset p.column := by
  have hmin : min offset source.utf8ByteSize = offset := by
    obtain ⟨before, ⟨after, hsource⟩, rfl⟩ := exists_before_of_isValid hvalid
    rw [← byteLength_toList, ← hsource, byteLength_append]
    omega
  obtain ⟨hline, hcolumn⟩ := h
  rw [hmin] at hline hcolumn
  exact ⟨hline, hcolumn hvalid⟩

/-- The first position stands before the second, by line and then by column. -/
def Position.Before (p q : Position) : Prop :=
  p.line < q.line ∨ p.line = q.line ∧ p.column < q.column

namespace LineIndex

/-- **The position found in the line index is the direct count.** -/
theorem countedAt_position (source : String) (offset : Nat) :
    ((ofText source).position offset).CountedAt source offset := by
  refine ⟨?_, fun hvalid => ?_⟩
  · rw [lineEnds, toList_data_toByteArray]
    exact lineAt_cut _ 1 0 [] 0 source.toList
  · obtain ⟨before, hbefore, hoffset⟩ := exists_before_of_isValid hvalid
    have hclamped : (ofText source).position offset =
        (ofText source).position (byteLength before) := by
      rw [position, position, hoffset, size_ofText, Nat.min_assoc, Nat.min_self]
    refine ⟨before, hbefore, hoffset, ?_⟩
    rw [hclamped, position_behind hbefore]
    exact Nat.add_comm _ 1

/-- **Positions of character boundaries keep their order.** -/
theorem before_position {source : String} {a b : Nat} (ha : String.Pos.Raw.IsValid source ⟨a⟩)
    (hb : String.Pos.Raw.IsValid source ⟨b⟩) (hlt : a < b) :
    ((ofText source).position a).Before ((ofText source).position b) := by
  obtain ⟨as, has, rfl⟩ := exists_before_of_isValid ha
  obtain ⟨bs, hbs, rfl⟩ := exists_before_of_isValid hb
  obtain ⟨between, rfl⟩ : as <+: bs := by
    refine (List.prefix_or_prefix_of_prefix has hbs).resolve_right fun ⟨tail, htail⟩ => ?_
    rw [← htail, byteLength_append] at hlt
    omega
  have hne : between ≠ [] := by
    rintro rfl
    simp at hlt
  simp only [position_behind has, position_behind hbs, Position.Before, List.count_append]
  by_cases hline : '\n' ∈ between
  · have := List.count_pos_iff.2 hline
    omega
  · have := List.length_pos_iff.2 hne
    rw [List.count_eq_zero.2 hline, lastLine_append hline, List.length_append]
    omega

end LineIndex

end Stackscript
