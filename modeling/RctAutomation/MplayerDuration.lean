import Mathlib.Data.Rat.Floor
import RctAutomation.BufferedReading
import RctAutomation.Int32
import RctAutomation.Sql.Value

/-!
# The duration of a file

`CalculateDuration` has mplayer play a file into nothing and takes the largest
position it reports, rounded up. The reports end in carriage returns, and what
mplayer writes is read through a buffer of a thousand bytes, so a read can end
within a report. Then its parts are searched one by one for what the whole one
says.

`durationOf_eq_iff` says when this makes no difference. The position in a report
that is cut has to be no larger than one that is read, and no part of it may
show a larger one than there is.

Positions are read as exact decimals, in place of the floating-point numbers
they are.
-/

open Sql (Bytes ascii readNat isDigit dropWhile_concat_of_not takeWhile_concat_of_not)

/-! ## Positions -/

/-- The value of digits with a point among them, as `strtod` reads it: up to
what no number goes on with. Without any digit it is zero. Only the
characters that the group of the expression can match have to be read here,
so there is no sign and no exponent. -/
def strtod (b : Bytes) : ℚ :=
  let whole := b.takeWhile isDigit
  let frac := if (b.dropWhile isDigit).head? = some 46 then
    (b.dropWhile isDigit).tail.takeWhile isDigit else []
  readNat (whole ++ frac) / 10 ^ frac.length

namespace Duration

/-- `[0-9.]`: the characters of a position. -/
def isPositionChar (c : UInt8) : Bool := isDigit c || c == 46

/-- **The first match** of `A:[ ]*([0-9.]*)`: what its group is. Both
repetitions take as much as they can, so the group ends at the first other
character; it may be empty. -/
def regexSearch : Bytes → Option Bytes
  | [] => none
  | c :: r =>
    -- A match is as long as can be, and one starts at every `A:`.
    if c = 65 ∧ r.head? = some 58 then
      some ((r.tail.dropWhile (fun c => c == 32)).takeWhile isPositionChar)
    else regexSearch r

example : regexSearch (ascii "V: 1 A:  07.25.1 (7.2) A: 8") = some (ascii "07.25.1") := by decide

/-- The position in a report, rounded up; `none` where the expression does
not match. -/
def seconds? (report : Bytes) : Option ℤ := (regexSearch report).map fun pos => ⌈strtod pos⌉

/-- A number stored in an `int`. It is undefined what becomes of one that
does not fit, so there is no result then. -/
def storeInt (n : ℤ) : Option ℤ := if FitsInt32 n then some n else none

/-- `duration = MAX(duration, ceil(…))`, where a report has a position. A
report without one changes nothing. -/
def readReport (duration : ℤ) (report : Bytes) : Option ℤ :=
  match seconds? report with
  | none => some duration
  | some n => storeInt (max duration n)

/-- The parts of a buffer between carriage returns, but for the empty ones.
The buffer is a C string, so what follows a zero in it is not seen. -/
def tokens (buf : Bytes) : List Bytes := ((cString buf).splitOn 13).filter (fun t => t ≠ [])

/-- **The duration that is read** from what mplayer writes: the largest
position of the parts of its buffers, each of at most 999 bytes. Without any
it is `-1`. -/
def durationOf (stdout : Bytes) : Option ℤ :=
  (fgetsAll 1000 stdout).foldlM (fun duration buf => (tokens buf).foldlM readReport duration) (-1)

/-- What `stat` says of a file: its size, and whether it is a regular one. It
says nothing of a file that is not there. -/
structure Stat where
  size : ℕ
  regular : Bool

/-- **`CalculateDuration`** of an item, with what `stat` says and mplayer
writes. Nothing where the behaviour is undefined. An item without a file
name, and a file that is missing, empty or not a regular one, has the
duration `-1`, and mplayer is not started. -/
def calculateDuration (stat : Bytes → Option Stat) (mplayer : Bytes → Bytes)
    (filename : Option Bytes) : Option ℤ :=
  match filename with
  | none => some (-1)
  | some name =>
    match stat name with
    | none => some (-1)
    | some s => if s.size = 0 || !s.regular then some (-1) else durationOf (mplayer name)

/-! ## What should be read -/

/-- The reports end in carriage returns and newlines. -/
def isEnd (c : UInt8) : Bool := c == 13 || c == 10

/-- **The reports**: what mplayer writes between carriage returns and
newlines. -/
def reports (stdout : Bytes) : List Bytes := stdout.splitOnP isEnd

/-- The largest position of some reports, or `-1` where none has one. -/
def largest (l : List Bytes) : ℤ := (l.filterMap seconds?).foldl max (-1)

/-- The reports, each with the parts it is read in. A part ends where the
buffer was full. -/
def readParts (stdout : Bytes) : List (List Bytes) :=
  Buffered.fragments isEnd (fgetsAll 1000 stdout)

/-- A report is cut when none of its parts is all of it. A part may be empty,
so it is not enough that there are two. -/
def IsCut (parts : List Bytes) : Prop := parts.flatten ∉ parts

/-- A position is no larger than one of those in a list, so it does not
count. -/
def AtMost (n : ℤ) (l : List Bytes) : Prop := ∃ b ∈ l, ∃ m, seconds? b = some m ∧ n ≤ m

/-- **The cuts do no harm**: the position in a report that is cut is no
larger than one that is read, the positions in its parts are no larger than
that of a report, and all that are read fit an `int`.

It is about what mplayer writes and where the reads end, which the length of
its lines decides. -/
structure CutsHarmless (stdout : Bytes) : Prop where
  /-- What is read can be stored. -/
  fits : ∀ parts ∈ readParts stdout, ∀ b ∈ parts, ∀ n, seconds? b = some n → n ≤ int32Max
  /-- Nothing is lost: some part shows as much as the report that is cut. -/
  kept : ∀ parts ∈ readParts stdout, IsCut parts →
    ∀ n, seconds? parts.flatten = some n → AtMost n (readParts stdout).flatten
  /-- Nothing is made up: some report shows as much as the part of a cut one. -/
  real : ∀ parts ∈ readParts stdout, IsCut parts →
    ∀ b ∈ parts, ∀ n, seconds? b = some n → AtMost n (reports stdout)

/-! ## The largest of some numbers -/

theorem foldl_max_le_iff {l : List ℤ} {d m : ℤ} :
    l.foldl max d ≤ m ↔ d ≤ m ∧ ∀ n ∈ l, n ≤ m := by
  induction l generalizing d with
  | nil => simp
  | cons n l ih =>
    rw [List.foldl_cons, ih, max_le_iff, List.forall_mem_cons, and_assoc]

theorem le_foldl_max_iff {l : List ℤ} {d m : ℤ} :
    m ≤ l.foldl max d ↔ m ≤ d ∨ ∃ n ∈ l, m ≤ n := by
  induction l generalizing d with
  | nil => simp
  | cons n l ih =>
    rw [List.foldl_cons, ih, le_max_iff, List.exists_mem_cons_iff, or_assoc]

/-- The position in a report is not negative. -/
theorem seconds?_nonneg {b : Bytes} {n : ℤ} (h : seconds? b = some n) : 0 ≤ n := by
  obtain ⟨pos, -, rfl⟩ := Option.map_eq_some_iff.mp h
  refine Int.ceil_nonneg ?_
  unfold strtod
  positivity

/-- A position without a point is a whole number. -/
theorem seconds?_of_digits {b : Bytes} (pos : Bytes) (h : regexSearch b = some pos)
    (hdigits : ∀ c ∈ pos, isDigit c = true) : seconds? b = some ↑(readNat pos) := by
  have hall : pos.takeWhile isDigit = pos := List.takeWhile_eq_self_iff.mpr hdigits
  have hnone : pos.dropWhile isDigit = [] := List.dropWhile_eq_nil_iff.mpr hdigits
  have hstrtod : strtod pos = (readNat pos : ℕ) := by
    unfold strtod
    simp [hall, hnone]
  unfold seconds?
  rw [h, Option.map_some, hstrtod, Int.ceil_natCast]

theorem mem_seconds_iff {l : List Bytes} {n : ℤ} :
    n ∈ l.filterMap seconds? ↔ ∃ b ∈ l, seconds? b = some n := List.mem_filterMap

/-- One list has no larger position than another when each of its positions is
at most one of the other's. -/
theorem largest_le_iff {l l' : List Bytes} :
    largest l ≤ largest l' ↔ ∀ b ∈ l, ∀ n, seconds? b = some n → AtMost n l' := by
  unfold largest
  rw [foldl_max_le_iff, and_iff_right (le_foldl_max_iff.mpr (Or.inl le_rfl))]
  constructor
  · intro h b hb n hn
    have hle := le_foldl_max_iff.mp (h n (mem_seconds_iff.mpr ⟨b, hb, hn⟩))
    rcases hle with hneg | ⟨m, hm, hnm⟩
    · have hpos := seconds?_nonneg hn
      omega
    · obtain ⟨b', hb', hm'⟩ := mem_seconds_iff.mp hm
      exact ⟨b', hb', m, hm', hnm⟩
  · intro h n hn
    obtain ⟨b, hb, hbn⟩ := mem_seconds_iff.mp hn
    obtain ⟨b', hb', m, hm, hnm⟩ := h b hb n hbn
    exact le_foldl_max_iff.mpr (Or.inr ⟨m, mem_seconds_iff.mpr ⟨b', hb', hm⟩, hnm⟩)

/-! ## What is read of a buffer -/

/-- **A newline at the end of a report changes nothing.** `fgets` leaves it
in the buffer, while a report is taken without it. -/
theorem regexSearch_append_newline (b : Bytes) : regexSearch (b ++ [10]) = regexSearch b := by
  induction b with
  | nil => rfl
  | cons c r ih =>
    have hhead : (r ++ [10]).head? = some 58 ↔ r.head? = some 58 := by
      cases r <;> simp
    rw [List.cons_append, regexSearch, regexSearch, ih]
    by_cases h : c = 65 ∧ r.head? = some 58
    · have hne : r ≠ [] := by
        rintro rfl
        exact absurd h.2 (by simp)
      rw [if_pos h, if_pos ⟨h.1, hhead.mpr h.2⟩, List.tail_append_of_ne_nil hne,
        dropWhile_concat_of_not (by decide), takeWhile_concat_of_not (by decide)]
    · rw [if_neg h, if_neg (mt (And.imp_right hhead.mp) h)]

theorem seconds?_append_newline (b : Bytes) : seconds? (b ++ [10]) = seconds? b := by
  unfold seconds?
  rw [regexSearch_append_newline]

/-- So it does not matter whether a buffer's newline is taken off. -/
theorem filterMap_splitOn_append_newline (b : Bytes) :
    ((b ++ [10]).splitOn 13).filterMap seconds? = (b.splitOn 13).filterMap seconds? := by
  induction b using Buffered.line_induction (13 : UInt8) with
  | last t ht =>
    have ht' : 13 ∉ t ++ [10] := by simp [ht]
    rw [List.splitOn_eq_singleton ht, List.splitOn_eq_singleton ht', List.filterMap_cons,
      List.filterMap_cons, seconds?_append_newline, List.filterMap_nil]
  | line body rest hbody ih =>
    rw [List.append_assoc, List.cons_append, List.splitOn_append_cons_self_of_not_mem hbody,
      List.splitOn_append_cons_self_of_not_mem hbody, List.filterMap_cons, List.filterMap_cons, ih]

/-- Without a newline, only carriage returns end a report. -/
theorem splitOnP_isEnd {b : Bytes} (h : 10 ∉ b) : b.splitOnP isEnd = b.splitOn 13 := by
  rw [List.splitOn_eq_splitOnP]
  induction b with
  | nil => rfl
  | cons c b ih =>
    have hc : isEnd c = (c == 13) := by
      unfold isEnd
      rw [beq_false_of_ne (List.ne_of_not_mem_cons h).symm, Bool.or_false]
    rw [List.splitOnP_cons_eq_if_modifyHead, List.splitOnP_cons_eq_if_modifyHead,
      ih (List.not_mem_of_not_mem_cons h), hc]

/-- **The positions in a buffer** are those in its parts between carriage
returns and newlines. The only newline that a buffer of `fgets` can have is
at its end. -/
theorem filterMap_tokens {buf : Bytes} (hzero : 0 ∉ buf) (hnl : 10 ∉ buf.dropLast) :
    (tokens buf).filterMap seconds? = (buf.splitOnP isEnd).filterMap seconds? := by
  have htokens : (tokens buf).filterMap seconds? = (buf.splitOn 13).filterMap seconds? := by
    unfold tokens
    rw [cString_of_noZero hzero, List.filterMap_filter]
    refine List.filterMap_congr fun t _ => ?_
    by_cases ht : t = []
    · rw [ht]
      rfl
    · simp [ht]
  rw [htokens]
  rcases List.eq_nil_or_concat buf with rfl | ⟨body, c, rfl⟩
  · rfl
  · rw [List.concat_eq_append] at hnl ⊢
    rw [List.dropLast_concat] at hnl
    by_cases hc : c = 10
    · rw [hc, filterMap_splitOn_append_newline, List.splitOnP_append_cons body [] rfl,
        splitOnP_isEnd hnl, List.filterMap_append]
      show _ = _ ++ []
      rw [List.append_nil]
    · rw [splitOnP_isEnd (by simp [hnl, Ne.symm hc])]

/-! ## What is read of all -/

/-- The largest position is read, if all fit. The induction is on the
reports, and from the duration so far; the maximum fits exactly when the
position does. -/
theorem foldlM_readReport {l : List Bytes} {duration : ℤ} (h : FitsInt32 duration) :
    l.foldlM readReport duration =
      if ∀ n ∈ l.filterMap seconds?, n ≤ int32Max then
        some ((l.filterMap seconds?).foldl max duration)
      else none := by
  induction l generalizing duration with
  | nil => simp
  | cons b l ih =>
    rw [List.foldlM_cons, List.filterMap_cons]
    unfold readReport
    cases hb : seconds? b with
    | none => exact ih h
    | some n =>
      dsimp only
      by_cases hn : n ≤ int32Max
      · have hfits : FitsInt32 (max duration n) := ⟨le_max_of_le_left h.1, max_le h.2 hn⟩
        rw [storeInt, if_pos hfits]
        show l.foldlM readReport _ = _
        simp only [ih hfits, List.forall_mem_cons, hn, true_and, List.foldl_cons]
      · have hfits : ¬ FitsInt32 (max duration n) :=
          fun hmax => hn (le_trans (le_max_right _ _) hmax.2)
        rw [storeInt, if_neg hfits, if_neg fun hall => hn (hall n List.mem_cons_self)]
        rfl

theorem foldlM_flatMap {α β γ : Type} (f : α → β → Option α) (g : γ → List β) (l : List γ)
    (a : α) : l.foldlM (fun a x => (g x).foldlM f a) a = (l.flatMap g).foldlM f a := by
  induction l generalizing a with
  | nil => rfl
  | cons x l ih => simp only [List.foldlM_cons, List.flatMap_cons, List.foldlM_append, ih]

theorem flatten_fgetsAll (stdout : Bytes) : (fgetsAll 1000 stdout).flatten = stdout :=
  Buffered.flatten_reads (by decide) stdout

/-- The reports are the parts put together. -/
theorem map_flatten_readParts (stdout : Bytes) :
    (readParts stdout).map List.flatten = reports stdout := by
  unfold readParts reports
  rw [Buffered.map_flatten_fragments, flatten_fgetsAll]

theorem mem_reports_of_readParts {stdout : Bytes} {parts : List Bytes}
    (h : parts ∈ readParts stdout) : parts.flatten ∈ reports stdout := by
  rw [← map_flatten_readParts]
  exact List.mem_map_of_mem h

/-- **The duration is the largest position that is read**, if all fit. The
maximum grows with each report, so one that does not fit is met by the loop
whatever comes before it. -/
theorem durationOf_eq_foldl (stdout : Bytes) :
    durationOf stdout =
      if ∀ n ∈ ((fgetsAll 1000 stdout).flatMap tokens).filterMap seconds?, n ≤ int32Max then
        some (largest ((fgetsAll 1000 stdout).flatMap tokens))
      else none := by
  unfold durationOf largest
  rw [foldlM_flatMap, foldlM_readReport (by decide)]

/-- A duration is an `int`, and at least -1. -/
theorem calculateDuration_range {stat : Bytes → Option Stat} {mplayer : Bytes → Bytes}
    {filename : Option Bytes} {duration : ℤ}
    (h : calculateDuration stat mplayer filename = some duration) :
    -1 ≤ duration ∧ duration ≤ int32Max := by
  have hinvalid : ∀ {d : ℤ}, some (-1) = some d → -1 ≤ d ∧ d ≤ int32Max := by
    rintro _ ⟨⟩
    decide
  unfold calculateDuration at h
  split at h
  · exact hinvalid h
  · split at h
    · exact hinvalid h
    · split at h
      · exact hinvalid h
      · rw [durationOf_eq_foldl] at h
        split at h
        · rename_i hall
          rw [← Option.some.inj h]
          exact ⟨le_foldl_max_iff.mpr (Or.inl le_rfl), foldl_max_le_iff.mpr ⟨by decide, hall⟩⟩
        · exact absurd h (by simp)

/-- In terms of the parts of the reports. -/
theorem durationOf_eq {stdout : Bytes} (h : 0 ∉ stdout) :
    durationOf stdout =
      if ∀ n ∈ (readParts stdout).flatten.filterMap seconds?, n ≤ int32Max then
        some (largest (readParts stdout).flatten)
      else none := by
  have hpositions : ((fgetsAll 1000 stdout).flatMap tokens).filterMap seconds? =
      (readParts stdout).flatten.filterMap seconds? := by
    unfold readParts
    rw [Buffered.flatten_fragments, List.filterMap_flatMap, List.filterMap_flatMap]
    refine List.flatMap_congr fun buf hbuf => filterMap_tokens (fun hzero => h ?_) ?_
    · rw [← flatten_fgetsAll stdout]
      exact List.mem_flatten.mpr ⟨buf, hbuf, hzero⟩
    · exact Buffered.nl_notMem_dropLast (by decide) hbuf
  rw [durationOf_eq_foldl]
  unfold largest
  rw [hpositions]

/-! ## Reports that are not cut -/

/-- The parts of a report that is not cut are the report and nothing. -/
theorem eq_of_not_isCut {parts : List Bytes} (h : ¬ IsCut parts) {b : Bytes} (hb : b ∈ parts) :
    b = parts.flatten ∨ b = [] := by
  obtain ⟨front, back, hparts⟩ := List.append_of_mem (not_not.mp h)
  have hlen := congrArg (fun l => l.flatten.length) hparts
  simp only [List.flatten_append, List.flatten_cons, List.length_append] at hlen
  have hfront : front.flatten = [] := List.length_eq_zero_iff.mp (by omega)
  have hback : back.flatten = [] := List.length_eq_zero_iff.mp (by omega)
  rw [hparts] at hb
  rcases List.mem_append.mp hb with hb | hb
  · exact Or.inr (List.flatten_eq_nil_iff.mp hfront b hb)
  · rcases List.mem_cons.mp hb with hb | hb
    · exact Or.inl hb
    · exact Or.inr (List.flatten_eq_nil_iff.mp hback b hb)

/-- **Cuts do no harm where there are none**, so lines that there is room for
are read as they are. mplayer writes a status line over and over with
carriage returns, so its lines are long for as long as it has nothing else to
say. -/
theorem cutsHarmless_of_lines {stdout : Bytes}
    (hlines : ∀ l ∈ Buffered.lines 10 stdout, l.length ≤ 999)
    (hfits : ∀ report ∈ reports stdout, ∀ n, seconds? report = some n → n ≤ int32Max) :
    CutsHarmless stdout := by
  have hparts : ∀ parts ∈ readParts stdout, parts = [] ∨ ¬IsCut parts := by
    unfold readParts fgetsAll
    rw [Buffered.reads_eq_lines (by decide) hlines]
    exact fun parts hp =>
      (Buffered.flatten_mem_of_lines rfl stdout parts hp).imp_right not_not.mpr
  constructor
  · intro parts hp b hb n hn
    rcases hparts parts hp with rfl | hcut
    · exact absurd hb List.not_mem_nil
    · rcases eq_of_not_isCut hcut hb with rfl | rfl
      · exact hfits _ (mem_reports_of_readParts hp) n hn
      · cases hn
  · intro parts hp hcut n hn
    rcases hparts parts hp with rfl | huncut
    · cases hn
    · exact absurd hcut huncut
  · intro parts hp hcut b hb
    rcases hparts parts hp with rfl | huncut
    · exact absurd hb List.not_mem_nil
    · exact absurd hcut huncut

/-- **The duration does not depend on where the reads end exactly when the
cuts do no harm.** What mplayer writes may have no zero, since a C string
ends at one.

Both sides bound the largest position from both directions: what is read
against what is reported, and the other way round. -/
theorem durationOf_eq_iff {stdout : Bytes} (h : 0 ∉ stdout) :
    durationOf stdout = some (largest (reports stdout)) ↔ CutsHarmless stdout := by
  have hmem : ∀ {parts b : _}, parts ∈ readParts stdout → b ∈ parts →
      b ∈ (readParts stdout).flatten := fun hp hb => List.mem_flatten.mpr ⟨_, hp, hb⟩
  rw [durationOf_eq h]
  constructor
  · intro heq
    have hfits : ∀ n ∈ (readParts stdout).flatten.filterMap seconds?, n ≤ int32Max := by
      by_contra hno
      rw [if_neg hno] at heq
      exact absurd heq (by simp)
    rw [if_pos hfits, Option.some.injEq] at heq
    constructor
    · intro parts hp b hb n hn
      exact hfits n (mem_seconds_iff.mpr ⟨b, hmem hp hb, hn⟩)
    · intro parts hp _ n hn
      exact largest_le_iff.mp heq.ge _ (mem_reports_of_readParts hp) n hn
    · intro parts hp _ b hb n hn
      exact largest_le_iff.mp heq.le b (hmem hp hb) n hn
  · rintro ⟨hfits, hkept, hreal⟩
    rw [if_pos, Option.some.injEq]
    · refine le_antisymm (largest_le_iff.mpr fun b hb n hn => ?_)
        (largest_le_iff.mpr fun b hb n hn => ?_)
      · obtain ⟨parts, hp, hb⟩ := List.mem_flatten.mp hb
        by_cases hcut : IsCut parts
        · exact hreal parts hp hcut b hb n hn
        · rcases eq_of_not_isCut hcut hb with rfl | rfl
          · exact ⟨_, mem_reports_of_readParts hp, n, hn, le_rfl⟩
          · exact absurd hn (by simp [seconds?, regexSearch])
      · rw [← map_flatten_readParts] at hb
        obtain ⟨parts, hp, rfl⟩ := List.mem_map.mp hb
        by_cases hcut : IsCut parts
        · exact hkept parts hp hcut n hn
        · exact ⟨_, hmem hp (not_not.mp hcut), n, hn, le_rfl⟩
    · intro n hn
      obtain ⟨b, hb, hbn⟩ := mem_seconds_iff.mp hn
      obtain ⟨parts, hp, hb⟩ := List.mem_flatten.mp hb
      exact hfits parts hp b hb n hbn

/-- Two lines that are read at once, without a cut. -/
theorem durationOf_two_lines :
    durationOf (ascii "A: 7\nA: 12") = some (largest (reports (ascii "A: 7\nA: 12"))) := by
  refine (durationOf_eq_iff (by decide)).mpr (cutsHarmless_of_lines (by decide) ?_)
  have hreports : reports (ascii "A: 7\nA: 12") = [ascii "A: 7", ascii "A: 12"] := by decide
  have hseven : seconds? (ascii "A: 7") = some 7 :=
    seconds?_of_digits (ascii "7") rfl (by decide +kernel)
  have htwelve : seconds? (ascii "A: 12") = some 12 :=
    seconds?_of_digits (ascii "12") rfl (by decide +kernel)
  simp [hreports, hseven, htwelve, int32Max]

/-- **A report that is cut after the first digit of its position.** The first
read ends with `A: 1`, and the `2` in the second one shows no position, so a
file of twelve seconds is read as one of one second. -/
theorem durationOf_cut :
    durationOf (List.replicate 995 13 ++ ascii "A: 12") = some 1 ∧
      largest (reports (List.replicate 995 13 ++ ascii "A: 12")) = 12 := by
  constructor
  · have hreads : fgetsAll 1000 (List.replicate 995 13 ++ ascii "A: 12") =
        [List.replicate 995 13 ++ ascii "A: 1", ascii "2"] := by
      decide +kernel
    have htokens : tokens (List.replicate 995 13 ++ ascii "A: 1") = [ascii "A: 1"] := by
      decide +kernel
    have hone : seconds? (ascii "A: 1") = some 1 :=
      seconds?_of_digits (ascii "1") rfl (by decide +kernel)
    unfold durationOf
    rw [hreads, List.foldlM_cons, htokens, List.foldlM_cons, readReport, hone]
    rfl
  · have hreports : reports (List.replicate 995 13 ++ ascii "A: 12") =
        List.replicate 995 [] ++ [ascii "A: 12"] := by
      decide +kernel
    have htwelve : seconds? (ascii "A: 12") = some 12 :=
      seconds?_of_digits (ascii "12") rfl (by decide +kernel)
    unfold largest
    rw [hreports, List.filterMap_append, List.filterMap_replicate_of_none rfl, List.filterMap_cons,
      htwelve]
    rfl

end Duration
