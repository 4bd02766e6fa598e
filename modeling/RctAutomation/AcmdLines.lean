import Mathlib.Algebra.Order.BigOperators.Group.List
import RctAutomation.BufferedReading
import RctAutomation.Playlists

/-!
# The lines that acmd reads

`acmd` takes file names and item IDs from its standard input, one in a line, and
reads the lines through buffers: one of 512 bytes for the names, one of 1024
for the IDs. A line that fills its buffer is read as several.

`--command=load` drops the newline of what it reads and passes over what is
empty then. `--command=replace` and `--command=append` cut what they read at the
first blank and take its number, which is `0` where there is none: an empty
line adds the item `0`. `acmd_reads_lines_iff` says for which inputs each line
is one record all the same.

What `load` prints is an input for the other two (`editPlaylist_printed`).
-/

open Sql

/-- `atoi`, which reads a `long` and keeps the `int` of it. -/
def atoi (b : Bytes) : ℤ := toInt32 (atoll b)

namespace Acmd

/-! ## File names -/

/-- The text in the buffer of `load`, without the newline at its end. It is a
C string, so it ends at a zero, too. -/
def chomp (buf : Bytes) : Bytes :=
  if (cString buf).getLast? = some 10 then (cString buf).dropLast else cString buf

/-- The file names in some buffers. -/
def namesIn (bufs : List Bytes) : List Bytes := (bufs.map chomp).filter (fun b => b ≠ [])

/-- **The file names that `load` looks up**, in their order. A buffer that is
empty without its newline has none. -/
def loadNames (stdin : Bytes) : List Bytes := namesIn (fgetsAll 512 stdin)

/-! ## IDs -/

/-- What comes before the end of a word. -/
def inWord (c : UInt8) : Bool := !isSpace c && c != 0

/-- The ID in the buffer of `replace` and `append`, which is cut at its first
blank. What does not start with a number reads as zero. -/
def readId (buf : Bytes) : ℤ := atoi (buf.takeWhile inWord)

/-- The commands that edit the list of a playlist. -/
inductive EditCommand
  | replace | append
  deriving DecidableEq

/-- The playlist that IDs are added to: `replace` clears the list that was
fetched first. -/
def EditCommand.start (cmd : EditCommand) (candidate : Playlist) : Playlist :=
  match cmd with
  | replace => { candidate with playableItemID := [] }
  | append => candidate

/-- **The playlist that `replace` and `append` store**, given the one that
was fetched. -/
def editPlaylist (cmd : EditCommand) (candidate : Playlist) (stdin : Bytes) : Playlist :=
  (fgetsAll 1024 stdin).foldl
    (fun p buf => { p with playableItemID := p.playableItemID ++ [readId buf] })
    (cmd.start candidate)

/-- A playlist with more items. -/
def addItems (p : Playlist) (ids : List ℤ) : Playlist :=
  { p with playableItemID := p.playableItemID ++ ids }

theorem addItems_inj {p : Playlist} {ids ids' : List ℤ} :
    addItems p ids = addItems p ids' ↔ ids = ids' := by
  refine ⟨fun h => ?_, congrArg _⟩
  exact List.append_cancel_left (congrArg Playlist.playableItemID h)

/-- Each buffer adds its ID. -/
theorem editPlaylist_eq (cmd : EditCommand) (candidate : Playlist) (stdin : Bytes) :
    editPlaylist cmd candidate stdin
      = addItems (cmd.start candidate) ((fgetsAll 1024 stdin).map readId) := by
  unfold editPlaylist
  generalize cmd.start candidate = p
  induction fgetsAll 1024 stdin generalizing p with
  | nil => simp [addItems]
  | cons buf bufs ih =>
    rw [List.foldl_cons, ih]
    simp [addItems]

/-! ## What a line should be read as -/

/-- The 32-bit integer that a line starts with, if it does. There may be a
sign in front of its digits, and no blank. -/
def leadingInt32? (line : Bytes) : Option ℤ :=
  let (neg, r) := splitSign line
  let ds := r.takeWhile isDigit
  if ds ≠ [] ∧ FitsInt32 (readInt neg ds) then some (readInt neg ds) else none

/-- **`load` takes each line for one file name**, but for the empty ones.
What follows the last newline is read as it would be alone. -/
def LoadReadsLines (stdin : Bytes) : Prop :=
  loadNames stdin
    = (Buffered.terminated 10 stdin).filter (fun b => b ≠ [])
      ++ loadNames (Buffered.unterminated 10 stdin)

/-- **`replace` and `append` add the IDs that lines start with**, in the
order of the lines, and nothing else. -/
def EditReadsLines (cmd : EditCommand) (candidate : Playlist) (stdin : Bytes) : Prop :=
  editPlaylist cmd candidate stdin
    = addItems (cmd.start candidate) ((Buffered.lines 10 stdin).filterMap leadingInt32?)

instance (stdin : Bytes) : Decidable (LoadReadsLines stdin) :=
  inferInstanceAs (Decidable (_ = _))

instance (cmd : EditCommand) (candidate : Playlist) (stdin : Bytes) :
    Decidable (EditReadsLines cmd candidate stdin) := inferInstanceAs (Decidable (_ = _))

/-- Lists made piece by piece, where the pieces of the one are never longer: they
are equal when the pieces are. -/
theorem flatMap_eq_flatMap_iff {α β : Type*} {l : List α} {f g : α → List β}
    (hle : ∀ x ∈ l, (g x).length ≤ (f x).length) :
    l.flatMap f = l.flatMap g ↔ ∀ x ∈ l, f x = g x := by
  refine ⟨fun h => ?_, List.flatMap_congr⟩
  induction l with
  | nil => exact fun x hx => absurd hx List.not_mem_nil
  | cons x l ih =>
    have htail : (l.flatMap g).length ≤ (l.flatMap f).length := by
      rw [List.length_flatMap, List.length_flatMap]
      exact List.sum_le_sum fun y hy => hle y (List.mem_cons_of_mem _ hy)
    have hlen := congrArg List.length h
    have hhead := hle x (List.mem_cons_self ..)
    rw [List.flatMap_cons, List.flatMap_cons] at h hlen
    rw [List.length_append, List.length_append] at hlen
    obtain ⟨hx, hrest⟩ := List.append_inj h (by omega)
    intro y hy
    rcases List.mem_cons.mp hy with rfl | hy
    · exact hx
    · exact ih (fun z hz => hle z (List.mem_cons_of_mem _ hz)) hrest y hy

/-! ## The names in a line -/

section Names

variable {n : ℕ}

theorem chomp_of_noZero {buf : Bytes} (h : 0 ∉ buf) :
    chomp buf = if buf.getLast? = some 10 then buf.dropLast else buf := by
  unfold chomp
  rw [cString_of_noZero h]

theorem chomp_line {body : Bytes} (h : 0 ∉ body) : chomp (body ++ [10]) = body := by
  rw [chomp_of_noZero (by simpa using h), List.getLast?_concat, if_pos rfl, List.dropLast_concat]

theorem chomp_of_notMem {buf : Bytes} (h : 0 ∉ buf) (hnl : 10 ∉ buf) : chomp buf = buf := by
  rw [chomp_of_noZero h, if_neg fun hlast => hnl (List.mem_of_getLast? hlast)]

/-- **What is left of a read**: it is no longer than the read, and has
neither a zero nor a newline, wherever they were. A read of `fgets` can only
have a newline at its end, and a C string ends before its first zero, so the
last byte is the only one to be looked at. -/
theorem chomp_spec {buf : Bytes} (hnl : 10 ∉ buf.dropLast) :
    (chomp buf).length ≤ buf.length ∧ 0 ∉ chomp buf ∧ 10 ∉ chomp buf := by
  obtain ⟨rest, hrest⟩ : cString buf <+: buf := List.takeWhile_prefix _
  have hzero : 0 ∉ cString buf := fun h => absurd (List.mem_takeWhile_imp h) (by decide)
  unfold chomp
  generalize cString buf = text at hrest hzero
  subst hrest
  rcases List.eq_nil_or_concat' text with rfl | ⟨init, c, rfl⟩
  · exact ⟨Nat.zero_le _, hzero, List.not_mem_nil⟩
  · -- a newline can only be the last byte of a read
    have hinit : 10 ∉ init := by
      intro h
      have hne : c :: rest ≠ [] := List.cons_ne_nil c rest
      rw [List.append_assoc, List.singleton_append, List.dropLast_append_of_ne_nil hne] at hnl
      exact hnl (List.mem_append_left _ h)
    rw [List.getLast?_concat]
    by_cases hc : c = 10
    · rw [if_pos (congrArg some hc), List.dropLast_concat]
      refine ⟨?_, fun h => hzero (List.mem_append_left _ h), hinit⟩
      exact ((List.prefix_append init [c]).trans (List.prefix_append _ rest)).length_le
    · rw [if_neg fun h => hc (Option.some.inj h)]
      refine ⟨(List.prefix_append _ rest).length_le, hzero, fun h => ?_⟩
      rcases List.mem_append.mp h with h | h
      · exact hinit h
      · exact hc (List.mem_singleton.mp h).symm

/-- **The names that `load` looks up are those it can print**: they fit its buffer, and have
neither a zero nor a newline. -/
theorem of_mem_loadNames {stdin name : Bytes} (h : name ∈ loadNames stdin) :
    name.length ≤ 511 ∧ 0 ∉ name ∧ 10 ∉ name := by
  obtain ⟨hname, -⟩ := List.mem_filter.mp h
  obtain ⟨buf, hbuf, rfl⟩ := List.mem_map.mp hname
  have hroom : 0 < 511 := by decide
  obtain ⟨hlen, hzero, hnl⟩ := chomp_spec (Buffered.nl_notMem_dropLast hroom hbuf)
  exact ⟨Nat.le_trans hlen (Buffered.length_le_of_mem_reads hroom hbuf), hzero, hnl⟩

/-- The names in the reads of a line that fits. -/
theorem namesIn_of_lt {body : Bytes} (h : 0 ∉ body) (hnl : 10 ∉ body) (hlt : body.length < n) :
    namesIn (Buffered.reads 10 n (body ++ [10])) = [body].filter (fun b => b ≠ []) := by
  rw [Buffered.reads_of_lt hnl hlt]
  show [chomp (body ++ [10])].filter _ = _
  rw [chomp_line h]

/-- The names in the reads of a line that does not. -/
theorem namesIn_of_le (hn : 0 < n) {body : Bytes} (h : 0 ∉ body) (hnl : 10 ∉ body)
    (hle : n ≤ body.length) :
    namesIn (Buffered.reads 10 n (body ++ [10]))
      = body.take n :: namesIn (Buffered.reads 10 n (body.drop n ++ [10])) := by
  have hne : body.take n ≠ [] := by
    rw [ne_eq, List.take_eq_nil_iff]
    rintro (rfl | rfl)
    · exact Nat.lt_irrefl 0 hn
    · exact absurd (Nat.le_zero.mp hle) (Nat.ne_of_gt hn)
  have hchomp : chomp (body.take n) = body.take n :=
    chomp_of_notMem (fun hmem => h (List.mem_of_mem_take hmem))
      (fun hmem => hnl (List.mem_of_mem_take hmem))
  rw [Buffered.reads_of_le hn hnl hle]
  unfold namesIn
  rw [List.map_cons, hchomp, List.filter_cons_of_pos (by simpa using hne)]

/-- A line that is not empty has a name. -/
theorem namesIn_ne_nil (hn : 0 < n) {body : Bytes} (h : 0 ∉ body) (hnl : 10 ∉ body)
    (hne : body ≠ []) : namesIn (Buffered.reads 10 n (body ++ [10])) ≠ [] := by
  by_cases hlt : body.length < n
  · rw [namesIn_of_lt h hnl hlt]
    simpa using hne
  · rw [namesIn_of_le hn h hnl (Nat.le_of_not_lt hlt)]
    exact List.cons_ne_nil _ _

/-- **A line has one name exactly when there is room for it**, for a newline
that does not fit is read alone, and is passed over as an empty name.

A line that fills the buffer with its text still has one name; a longer one
has at least two, that in front and one in what is left. -/
theorem namesIn_line_iff (hn : 0 < n) {body : Bytes} (h : 0 ∉ body) (hnl : 10 ∉ body) :
    namesIn (Buffered.reads 10 n (body ++ [10])) = [body].filter (fun b => b ≠ [])
      ↔ body.length ≤ n := by
  rcases Nat.lt_trichotomy body.length n with hlt | heq | hgt
  · exact iff_of_true (namesIn_of_lt h hnl hlt) hlt.le
  · have hne : body ≠ [] := List.length_pos_iff.mp (heq ▸ hn)
    refine iff_of_true ?_ heq.le
    have hrest : namesIn (Buffered.reads 10 n ([] ++ [10])) = [] :=
      namesIn_of_lt List.not_mem_nil List.not_mem_nil hn
    rw [namesIn_of_le hn h hnl heq.ge, ← heq, List.drop_length, heq, hrest, ← heq,
      List.take_length]
    simp [hne]
  · refine iff_of_false (fun hsame => ?_) (Nat.not_le_of_lt hgt)
    have hdrop : body.drop n ≠ [] := by
      rw [ne_eq, List.drop_eq_nil_iff]
      omega
    -- there is a name in front, and one in what is left
    have hmore := List.length_pos_iff.mpr (namesIn_ne_nil hn
      (fun hmem => h (List.mem_of_mem_drop hmem)) (fun hmem => hnl (List.mem_of_mem_drop hmem))
      hdrop)
    have hone := List.length_filter_le (fun b => decide (b ≠ [])) [body]
    rw [← hsame, namesIn_of_le hn h hnl hgt.le, List.length_cons, List.length_singleton] at hone
    omega

/-- There are never fewer names than there should be. -/
theorem length_le_namesIn (hn : 0 < n) {body : Bytes} (h : 0 ∉ body) (hnl : 10 ∉ body) :
    ([body].filter (fun b => b ≠ [])).length
      ≤ (namesIn (Buffered.reads 10 n (body ++ [10]))).length := by
  by_cases hne : body = []
  · rw [hne]
    exact Nat.zero_le _
  · refine Nat.le_trans (List.length_filter_le _ _) ?_
    exact List.length_pos_iff.mpr (namesIn_ne_nil hn h hnl hne)

/-- The names in a stream are those in its lines. -/
theorem namesIn_reads (hn : 0 < n) (stdin : Bytes) :
    namesIn (Buffered.reads 10 n stdin)
      = (Buffered.terminated 10 stdin).flatMap
          (fun body => namesIn (Buffered.reads 10 n (body ++ [10])))
        ++ namesIn (Buffered.reads 10 n (Buffered.unterminated 10 stdin)) := by
  induction stdin using Buffered.line_induction (10 : UInt8) with
  | last t ht =>
    rw [Buffered.terminated_last ht, Buffered.unterminated_last ht]
    rfl
  | line body rest hbody ih =>
    have happend : ∀ a b : List Bytes, namesIn (a ++ b) = namesIn a ++ namesIn b := by
      intro a b
      unfold namesIn
      rw [List.map_append, List.filter_append]
    rw [Buffered.terminated_line hbody, Buffered.unterminated_line hbody,
      Buffered.reads_line hn hbody, happend, ih, List.flatMap_cons, List.append_assoc]

/-- **When each line is one name**: its text has at most 511 bytes. -/
theorem loadReadsLines_iff {stdin : Bytes} (h : 0 ∉ stdin) :
    LoadReadsLines stdin ↔ ∀ line ∈ Buffered.terminated 10 stdin, line.length ≤ 511 := by
  have hbodies : ∀ body ∈ Buffered.terminated 10 stdin, 0 ∉ body ∧ 10 ∉ body := by
    intro body hbody
    obtain ⟨hnl, hmem⟩ := Buffered.of_mem_terminated hbody
    exact ⟨fun h0 => h (hmem 0 h0), hnl⟩
  have hexpected : (Buffered.terminated 10 stdin).filter (fun b => b ≠ [])
      = (Buffered.terminated 10 stdin).flatMap (fun body => [body].filter (fun b => b ≠ [])) := by
    rw [← List.filter_flatMap, List.flatMap_singleton']
  have hroom : 0 < 511 := by decide
  unfold LoadReadsLines loadNames
  show namesIn (Buffered.reads 10 511 stdin)
    = _ ++ namesIn (Buffered.reads 10 511 (Buffered.unterminated 10 stdin)) ↔ _
  rw [namesIn_reads hroom, List.append_cancel_right_eq, hexpected,
    flatMap_eq_flatMap_iff fun body hbody =>
      length_le_namesIn hroom (hbodies body hbody).1 (hbodies body hbody).2]
  refine forall_congr' fun body => forall_congr' fun hbody => ?_
  exact namesIn_line_iff hroom (hbodies body hbody).1 (hbodies body hbody).2

end Names

/-! ## The ID in a line -/

theorem inWord_of_isDigit {c : UInt8} (h : isDigit c = true) : inWord c = true := by
  have hzero : c ≠ 0 := by
    rintro rfl
    exact absurd h (by decide)
  unfold inWord
  rw [isSpace_of_isDigit h, bne_iff_ne.mpr hzero]
  rfl

/-- Cutting leaves the sign in front. -/
theorem splitSign_takeWhile (b : Bytes) :
    splitSign (b.takeWhile inWord) = ((splitSign b).1, (splitSign b).2.takeWhile inWord) := by
  cases b with
  | nil => rfl
  | cons c r =>
    by_cases hminus : c = 45
    · subst hminus
      rfl
    · by_cases hplus : c = 43
      · subst hplus
        rfl
      · have hsplit : ∀ r' : Bytes, splitSign (c :: r') = (false, c :: r') := by
          intro r'
          show (if c = 45 then _ else if c = 43 then _ else _) = _
          rw [if_neg hminus, if_neg hplus]
        rw [hsplit, List.takeWhile_cons]
        split
        · exact hsplit _
        · rfl

/-- **The number a buffer is read as**: the sign and the digits it starts
with, first kept in 64 bits and then in 32. Neither that the buffer is cut at
its first blank nor that `atoi` skips blanks makes a difference, as no digit
is one. -/
theorem readId_eq (buf : Bytes) :
    readId buf
      = toInt32 (clampInt64 (readInt (splitSign buf).1 ((splitSign buf).2.takeWhile isDigit))) := by
  have hspace : (buf.takeWhile inWord).dropWhile isSpace = buf.takeWhile inWord := by
    cases hword : buf.takeWhile inWord with
    | nil => rfl
    | cons c r =>
      have hc : inWord c = true :=
        List.mem_takeWhile_imp (by rw [hword]; exact List.mem_cons_self ..)
      have hno : isSpace c = false := by
        unfold inWord at hc
        simpa using (Bool.and_eq_true_iff.mp hc).1
      rw [List.dropWhile_cons_of_neg (by rw [hno]; exact Bool.false_ne_true)]
  have hdigits : ∀ r : Bytes, (r.takeWhile inWord).takeWhile isDigit = r.takeWhile isDigit := by
    intro r
    rw [List.takeWhile_takeWhile]
    congr 1
    funext c
    cases hc : isDigit c with
    | false => simp
    | true => simp [inWord_of_isDigit hc]
  show toInt32 (clampInt64 (intPrefix (buf.takeWhile inWord))) = _
  unfold intPrefix
  rw [hspace, splitSign_takeWhile]
  dsimp only
  rw [hdigits]

/-- A line that starts with an integer is read as it. -/
theorem readId_of_leading {line : Bytes} {i : ℤ} (h : leadingInt32? line = some i) :
    readId line = i := by
  have hdef : leadingInt32? line
      = if (splitSign line).2.takeWhile isDigit ≠ []
          ∧ FitsInt32 (readInt (splitSign line).1 ((splitSign line).2.takeWhile isDigit)) then
          some (readInt (splitSign line).1 ((splitSign line).2.takeWhile isDigit))
        else none := rfl
  rw [hdef] at h
  split at h
  · rename_i hlead
    obtain ⟨-, hfits⟩ := hlead
    have hclamp : clampInt64 (readInt (splitSign line).1 ((splitSign line).2.takeWhile isDigit))
        = readInt (splitSign line).1 ((splitSign line).2.takeWhile isDigit) := by
      obtain ⟨hlo, hhi⟩ := hfits
      unfold int32Min at hlo
      unfold int32Max at hhi
      unfold clampInt64
      omega
    rw [readId_eq, hclamp, toInt32_of_fits hfits]
    exact Option.some.inj h
  · cases h

/-- **A line adds the ID it starts with exactly when it starts with one and
there is room for it.** A line that starts with none adds the zero, and one
that is too long adds an ID for each read. -/
theorem readIds_line_iff {stdin line : Bytes} (h : line ∈ Buffered.lines 10 stdin) :
    (Buffered.reads 10 1023 line).map readId = (leadingInt32? line).toList
      ↔ line.length ≤ 1023 ∧ (leadingInt32? line).isSome := by
  have hroom : 0 < 1023 := by decide
  have hne := Buffered.ne_nil_of_mem_lines h
  rw [← Buffered.reads_eq_singleton_iff hroom h]
  constructor
  · intro hsame
    have hlen := congrArg List.length hsame
    rw [List.length_map] at hlen
    have hpos : 0 < (Buffered.reads 10 1023 line).length :=
      List.length_pos_iff.mpr (Buffered.reads_ne_nil hroom hne)
    cases hlead : leadingInt32? line with
    | none =>
      rw [hlead] at hlen
      exact absurd hlen (Nat.ne_of_gt hpos)
    | some i =>
      rw [hlead] at hlen
      obtain ⟨buf, hbuf⟩ := List.length_eq_one_iff.mp hlen
      have hflat : (Buffered.reads 10 1023 line).flatten = line := Buffered.flatten_reads hroom line
      rw [hbuf, List.flatten_singleton] at hflat
      rw [hbuf, hflat]
      exact ⟨rfl, rfl⟩
  · rintro ⟨hone, hsome⟩
    obtain ⟨i, hi⟩ := Option.isSome_iff_exists.mp hsome
    rw [hone, hi]
    show [readId line] = [i]
    rw [readId_of_leading hi]

/-- **When each line is one ID**: it starts with one, and has at most 1023
bytes with its newline. -/
theorem editReadsLines_iff (cmd : EditCommand) (candidate : Playlist) (stdin : Bytes) :
    EditReadsLines cmd candidate stdin
      ↔ ∀ line ∈ Buffered.lines 10 stdin,
          line.length ≤ 1023 ∧ (leadingInt32? line).isSome := by
  have hroom : 0 < 1023 := by decide
  have hle : ∀ line ∈ Buffered.lines 10 stdin, (leadingInt32? line).toList.length
      ≤ ((Buffered.reads 10 1023 line).map readId).length := by
    intro line hline
    have hpos : 0 < (Buffered.reads 10 1023 line).length :=
      List.length_pos_iff.mpr (Buffered.reads_ne_nil hroom (Buffered.ne_nil_of_mem_lines hline))
    rw [List.length_map]
    cases leadingInt32? line with
    | none => exact Nat.zero_le _
    | some i => exact hpos
  unfold EditReadsLines
  rw [editPlaylist_eq, addItems_inj]
  show (Buffered.reads 10 1023 stdin).map readId = _ ↔ _
  rw [Buffered.reads_eq_flatMap hroom, List.map_flatMap, List.filterMap_eq_flatMap_toList,
    flatMap_eq_flatMap_iff hle]
  exact forall_congr' fun line => forall_congr' fun hline => readIds_line_iff hline

/-- **Each line is one record** for `load` exactly when its text has at most
511 bytes, and for `replace` and `append` exactly when it starts with an ID
and has at most 1023 bytes with its newline.

The input has no zero, at which a buffer would seem to end. An empty line has
no record for `load`, which passes over it, and is one without an ID for the
other commands. -/
theorem acmd_reads_lines_iff {stdin : Bytes} (h : 0 ∉ stdin) (cmd : EditCommand)
    (candidate : Playlist) :
    (LoadReadsLines stdin
        ↔ ∀ line ∈ Buffered.terminated 10 stdin, line.length ≤ 511)
      ∧ (EditReadsLines cmd candidate stdin
        ↔ ∀ line ∈ Buffered.lines 10 stdin,
            line.length ≤ 1023 ∧ (leadingInt32? line).isSome) :=
  ⟨loadReadsLines_iff h, editReadsLines_iff cmd candidate stdin⟩

/-- Two lines with a file name each, of which both commands make two records. -/
theorem acmd_reads_lines_two :
    0 ∉ ascii "7\ta\n9\tb\n" ∧ LoadReadsLines (ascii "7\ta\n9\tb\n")
      ∧ EditReadsLines .replace {} (ascii "7\ta\n9\tb\n") := by
  have hzero : 0 ∉ ascii "7\ta\n9\tb\n" := by decide
  obtain ⟨hload, hedit⟩ := acmd_reads_lines_iff hzero .replace {}
  exact ⟨hzero, hload.mpr (by decide), hedit.mpr (by decide)⟩

/-- **An empty line adds the item `0`**, between those of the lines around
it. -/
theorem acmd_blank_line :
    0 ∉ ascii "7\n\n9\n" ∧ ¬EditReadsLines .append {} (ascii "7\n\n9\n")
      ∧ (editPlaylist .append {} (ascii "7\n\n9\n")).playableItemID = [7, 0, 9] := by
  decide

/-! ## What `load` prints -/

/-- The line `load` prints for an item: its ID, a tab and its name. -/
def printLine (id : ℤ) (name : Bytes) : Bytes := decimal id ++ 9 :: name ++ [10]

/-- **An item that `load` prints**: its ID is an `int`, and its name was read
through the buffer. Names that were read this way meet the last three
conditions (`of_mem_loadNames`). -/
structure PrintedItem where
  id : ℤ
  name : Bytes
  fits : FitsInt32 id
  short : name.length ≤ 511
  noZero : 0 ∉ name
  oneLine : 10 ∉ name

/-- The line that is printed for it. -/
def PrintedItem.line (item : PrintedItem) : Bytes := printLine item.id item.name

/-- A line that starts with a number, which no digit follows. -/
theorem leadingInt32?_decimal {i : ℤ} (hi : FitsInt32 i) {c : UInt8} (hc : isDigit c = false)
    (rest : Bytes) : leadingInt32? (decimal i ++ c :: rest) = some i := by
  have hall : ∀ d ∈ digitsOf i.natAbs, isDigit d = true :=
    List.all_eq_true.mp (digitsOf_all _)
  have hdigits : (digitsOf i.natAbs ++ c :: rest).takeWhile isDigit = digitsOf i.natAbs := by
    rw [List.takeWhile_append_of_pos hall, List.takeWhile_cons_of_neg (by simp [hc]),
      List.append_nil]
  unfold leadingInt32?
  rw [splitSign_decimal_append]
  dsimp only
  rw [hdigits, readInt_natAbs, if_pos ⟨digitsOf_ne_nil _, hi⟩]

/-- A 32-bit integer has at most eleven characters. -/
theorem length_decimal_le {i : ℤ} (hi : FitsInt32 i) : (decimal i).length ≤ 11 := by
  have hsmall : i.natAbs < 10 ^ 10 := by
    obtain ⟨hlo, hhi⟩ := hi
    unfold int32Min at hlo
    unfold int32Max at hhi
    omega
  have hdigits : (digitsOf i.natAbs).length ≤ 10 := by
    unfold digitsOf
    split
    · exact Nat.succ_le_succ (Nat.zero_le _)
    · rw [List.length_map, List.length_reverse]
      exact (Nat.digits_length_le_iff (by decide) _).mpr hsmall
  unfold decimal
  split
  · exact Nat.succ_le_succ hdigits
  · exact Nat.le_succ_of_le hdigits

namespace PrintedItem

variable (item : PrintedItem)

/-- The text of a line that is printed has no newline. -/
theorem newline_notMem : 10 ∉ decimal item.id ++ 9 :: item.name := by
  intro h
  rcases List.mem_append.mp h with h | h
  · exact notMem_decimal (by decide) (by decide) item.id h
  · rcases List.mem_cons.mp h with h | h
    · exact absurd h (by decide)
    · exact item.oneLine h

/-- A line that is printed fits the buffer it is read through. -/
theorem reads_line_append (rest : Bytes) :
    Buffered.reads 10 1023 (item.line ++ rest) = item.line :: Buffered.reads 10 1023 rest := by
  have hlen : (decimal item.id ++ 9 :: item.name).length < 1023 := by
    have hid := length_decimal_le item.fits
    have hname := item.short
    rw [List.length_append, List.length_cons]
    omega
  have hassoc : item.line ++ rest = (decimal item.id ++ 9 :: item.name) ++ 10 :: rest := by
    unfold line printLine
    rw [List.append_assoc]
    rfl
  rw [hassoc, Buffered.reads_of_lt item.newline_notMem hlen]
  rfl

/-- The tab ends the ID, whatever the name is. -/
theorem readId_line : readId item.line = item.id := by
  refine readId_of_leading ?_
  unfold line printLine
  rw [List.append_assoc]
  exact leadingInt32?_decimal item.fits (by decide) _

end PrintedItem

/-- The IDs that are read of lines that were printed. -/
theorem map_readId_lines (items : List PrintedItem) :
    (Buffered.reads 10 1023 (items.flatMap PrintedItem.line)).map readId
      = items.map PrintedItem.id := by
  induction items with
  | nil => rfl
  | cons item items ih =>
    rw [List.flatMap_cons, item.reads_line_append, List.map_cons, List.map_cons, ih,
      item.readId_line]

/-- **What `load` prints is read back**: `replace` and `append` add the IDs
of the items, in their order. A printed line fits their buffer, and the tab
after the ID is where it is cut.

The name may have blanks and digits, or another tab. It may not have a
newline, and it is short enough to have been read by `load`; that what `load`
prints meets this is a theorem about its runs. -/
theorem editPlaylist_printed (cmd : EditCommand) (candidate : Playlist)
    (items : List PrintedItem) :
    editPlaylist cmd candidate (items.flatMap PrintedItem.line)
      = addItems (cmd.start candidate) (items.map PrintedItem.id) := by
  rw [editPlaylist_eq]
  exact congrArg _ (map_readId_lines items)

/-- Items whose names have blanks, tabs and digits, where an ID could be looked for. -/
def printedItems : List PrintedItem :=
  [⟨7, ascii " 12 a.ogg", by decide, by decide, by decide, by decide⟩,
    ⟨-3, ascii "\t9\t10", by decide, by decide, by decide, by decide⟩,
    ⟨2147483647, ascii "5 6", by decide, by decide, by decide, by decide⟩]

example : printedItems.flatMap PrintedItem.line
    = ascii "7\t 12 a.ogg\n-3\t\t9\t10\n2147483647\t5 6\n" := by decide

example : (editPlaylist .append { playableItemID := [1] }
    (printedItems.flatMap PrintedItem.line)).playableItemID = [1, 7, -3, 2147483647] := by decide

end Acmd
