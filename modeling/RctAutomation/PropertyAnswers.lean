import RctAutomation.BufferedReading
import RctAutomation.Int32
import RctAutomation.MplayerSession
import RctAutomation.Sql.Value

/-!
# The answers of mplayer

`GetProperty` sends a question and reads what mplayer writes, line by line,
until one of them is the answer. It waits for the pipe to be readable before
each line, but a line is read through a stream, which takes all the pipe holds
and keeps the lines after the first for later. A line that waits in the stream
makes nothing readable.

So each line that is passed over needs something new in the pipe.
`getProperty_finds_iff` says when an answer that has come is found.

The numbers of the player are of any type, in place of the floating-point ones
they are.
-/

open Sql (Bytes ascii)

/-! ## Lines and names -/

/-- A complete line that mplayer has written, without its newline, which fits
the buffer of `GetProperty`, so that it is read at once. -/
structure OutputLine where
  text : Bytes
  oneLine : 10 ∉ text
  short : text.length < 2047

/-- What `fgets` leaves in the buffer, up to the zero that it puts behind. -/
def OutputLine.buf (line : OutputLine) : Bytes := line.text ++ [10]

/-- **The name of a property**: a C string for which there is room in
`expected_answer`, as all that are asked for are. -/
structure PropertyName where
  text : Bytes
  noZero : 0 ∉ text
  short : text.length ≤ 506

/-- The names that `Play` asks for, each with why an answer to it can be told
from its question. -/
def Property.name : Property → PropertyName
  | .pause => ⟨ascii "pause", by decide, by decide⟩
  | .time_pos => ⟨ascii "time_pos", by decide, by decide⟩
  | .length => ⟨ascii "length", by decide, by decide⟩
  | .metadata => ⟨ascii "metadata", by decide, by decide⟩

namespace PropertyName

variable (name : PropertyName)

/-- `ANS_<name>=`: how mplayer begins the answer to a question. -/
def answer : Bytes := ascii "ANS_" ++ name.text ++ ascii "="

/-- The line begins with `ANS_<name>=`. -/
def begins (line : OutputLine) : Bool := name.answer.isPrefixOf line.text

/-- `expected_answer`, as `snprintf` writes it into 512 bytes. -/
def expectedAnswer : Bytes := (ascii "ANS_" ++ cString name.text ++ ascii "=").take 511

/-- `strncmp` finds the expected answer in the buffer, which it reads as a C
string. -/
def expects (buf : Bytes) : Bool := name.expectedAnswer.isPrefixOf (cString buf)

/-- The result that is read off the buffer: behind the prefix, and without
the newline if there is one. -/
def result (buf : Bytes) : Bytes :=
  (if (cString buf).getLast? = some 10 then (cString buf).dropLast else cString buf).drop
    ((cString name.text).length + (ascii "ANS_=").length)

end PropertyName

/-! ## The stream -/

/-- What mplayer has written and nobody has read: the lines in the buffer of
the stream, and those in the pipe. `select` only knows of the latter. -/
structure MplayerStdout where
  buffer : List OutputLine := []
  pipe : List OutputLine := []

namespace MplayerStdout

/-- `fgets`: what is in the pipe is moved to the stream, and its first line
is read. -/
def fgets (s : MplayerStdout) : Option (OutputLine × MplayerStdout) :=
  match s.buffer ++ s.pipe with
  | [] => none
  | line :: buffer => some (line, ⟨buffer, []⟩)

/-- **The loop of `GetProperty`**, with what comes into the pipe before each
further `select` returns, and nothing where it times out. Lines that are no
answer are dropped. -/
def readAnswer (name : PropertyName) :
    List (List OutputLine) → MplayerStdout → Option Bytes × MplayerStdout
  | later, s =>
    if s.pipe.isEmpty then (none, s)
    else
      match s.fgets with
      | none => (none, s)
      | some (line, s) =>
        if name.expects line.buf then (some (name.result line.buf), s)
        else
          match later with
          | [] => (none, s)
          | batch :: later => readAnswer name later ⟨s.buffer, s.pipe ++ batch⟩

end MplayerStdout

/-- The state of the player that answers are recorded in. A field that was
never answered is not set. -/
structure PlayerState (F : Type) where
  paused : Option Bool := none
  time_pos : Option F := none
  length : Option F := none
  path : Option Bytes := none
  metadata : Option Bytes := none

/-- What an answer sets, by the name of the property. The state is paused if
`yes` stands anywhere in the answer. -/
def PlayerState.record {F : Type} (atof : Bytes → F) (name result : Bytes) (s : PlayerState F) :
    PlayerState F :=
  if name = ascii "pause" then { s with paused := some (decide (ascii "yes" <:+: result)) }
  else if name = ascii "time_pos" then { s with time_pos := some (atof result) }
  else if name = ascii "length" then { s with length := some (atof result) }
  else if name = ascii "metadata" then { s with metadata := some result }
  else if name = ascii "path" then { s with path := some result }
  else s

/-- The session as `GetProperty` sees it once its question is written. -/
structure Listener (F : Type) where
  mplayer_stdout : MplayerStdout
  last_alive : ℤ
  state : PlayerState F

/-- **`GetProperty`**: the answer, or nothing for the `EOF` of a timeout.
`now` is what the clock shows when there is an answer, which is stored as an
`int`. -/
def Listener.getProperty {F : Type} (atof : Bytes → F) (name : PropertyName)
    (later : List (List OutputLine)) (now : ℤ) (s : Listener F) : Option Bytes × Listener F :=
  match s.mplayer_stdout.readAnswer name later with
  | (none, stdout) => (none, { s with mplayer_stdout := stdout })
  | (some result, stdout) => (some result,
      { mplayer_stdout := stdout
        last_alive := toInt32 now
        state := s.state.record atof name.text result })

/-! ## What a line is read as -/

/-- A part without a zero is read before the rest. -/
theorem cString_append {a : Bytes} (h : 0 ∉ a) (b : Bytes) : cString (a ++ b) = a ++ cString b :=
  List.takeWhile_append_of_pos fun _ hc => bne_iff_ne.mpr fun hzero => h (hzero ▸ hc)

/-- What comes behind a zero is not read. -/
theorem cString_append_of_zero {a : Bytes} (h : 0 ∈ a) (b : Bytes) :
    cString (a ++ b) = cString a := by
  induction a with
  | nil => exact absurd h List.not_mem_nil
  | cons c a ih =>
    unfold cString at ih ⊢
    rw [List.cons_append, List.takeWhile_cons, List.takeWhile_cons]
    by_cases hc : c = 0
    · rw [hc]
      rfl
    · rw [ih ((List.mem_cons.mp h).resolve_left fun hzero => hc hzero.symm)]

namespace PropertyName

variable (name : PropertyName)

theorem noZero_answer : 0 ∉ name.answer := by
  have hzero := name.noZero
  have hprefix : (0 : UInt8) ∉ ascii "ANS_" := by decide
  have hend : (0 : UInt8) ∉ ascii "=" := by decide
  unfold answer
  simp [hzero, hprefix, hend]

/-- There is room for the expected answer. -/
theorem expectedAnswer_eq : name.expectedAnswer = name.answer := by
  have hshort := name.short
  have hprefix : (ascii "ANS_").length = 4 := rfl
  have hend : (ascii "=").length = 1 := rfl
  unfold expectedAnswer answer
  rw [cString_of_noZero name.noZero]
  refine List.take_of_length_le ?_
  rw [List.length_append, List.length_append]
  omega

theorem length_answer :
    (cString name.text).length + (ascii "ANS_=").length = name.answer.length := by
  have hprefix : (ascii "ANS_").length = 4 := rfl
  have hend : (ascii "=").length = 1 := rfl
  have hboth : (ascii "ANS_=").length = 5 := rfl
  unfold answer
  rw [cString_of_noZero name.noZero, List.length_append, List.length_append]
  omega

variable {name} {line : OutputLine}

theorem begins_iff : name.begins line = true ↔ ∃ rest, line.text = name.answer ++ rest := by
  unfold begins
  rw [List.isPrefixOf_iff_prefix]
  exact ⟨fun h => h.elim fun rest hrest => ⟨rest, hrest.symm⟩, fun h => h.elim fun rest hrest =>
    ⟨rest, hrest.symm⟩⟩

/-- **The lines that are taken for an answer** are those that begin as one,
because names are short enough for the buffer of the expected answer. -/
theorem expects_buf : name.expects line.buf = name.begins line := by
  rw [Bool.eq_iff_iff, begins_iff]
  unfold expects
  rw [List.isPrefixOf_iff_prefix, expectedAnswer_eq]
  constructor
  · intro h
    have hbuf : name.answer <+: line.text ++ [10] := h.trans (List.takeWhile_prefix _)
    rcases List.prefix_concat_iff.mp hbuf with heq | hpre
    · -- the answer ends in no newline
      have hlast := congrArg List.getLast? heq
      unfold answer at hlast
      rw [List.getLast?_concat, show ascii "=" = [61] from rfl, List.getLast?_concat] at hlast
      exact absurd hlast (by decide)
    · exact hpre.elim fun rest hrest => ⟨rest, hrest.symm⟩
  · rintro ⟨rest, hrest⟩
    unfold OutputLine.buf
    rw [hrest, List.append_assoc, cString_append name.noZero_answer]
    exact List.prefix_append _ _

/-- **What an answer is read as**: the text behind its prefix, as C reads it,
so up to a zero byte. -/
theorem result_buf (h : name.begins line = true) :
    name.result line.buf = cString (line.text.drop name.answer.length) := by
  obtain ⟨rest, hrest⟩ := begins_iff.mp h
  have hone := line.oneLine
  unfold result OutputLine.buf
  rw [length_answer, hrest, List.append_assoc, cString_append name.noZero_answer, List.drop_left]
  by_cases hzero : 0 ∈ rest
  · -- the newline is behind the zero
    rw [cString_append_of_zero hzero, if_neg, List.drop_left]
    intro hlast
    have hmem : 10 ∈ name.answer ++ cString rest := List.mem_of_getLast? hlast
    refine hone ?_
    rw [hrest]
    exact List.mem_append.mpr ((List.mem_append.mp hmem).imp_right
      fun h => (List.takeWhile_prefix _).subset h)
  · rw [cString_append hzero, cString_of_noZero hzero, show cString [10] = [10] from rfl,
      ← List.append_assoc, List.getLast?_concat, if_pos rfl, List.dropLast_concat, List.drop_left]

end PropertyName

/-! ## How many lines are read -/

/-- How often `select` finds something: at first, and as long as more comes
each time. -/
def selects (later : List (List OutputLine)) : ℕ :=
  (later.takeWhile (fun batch => !batch.isEmpty)).length + 1

/-- The first match among the first elements is the first match, or comes too
late. -/
theorem find?_take {α : Type*} (p : α → Bool) (xs : List α) (n : ℕ) :
    (xs.take n).find? p = if xs.findIdx p < n then xs.find? p else none := by
  rw [List.find?_eq_getElem?_findIdx, List.findIdx_take, List.getElem?_take,
    List.find?_eq_getElem?_findIdx]
  by_cases h : xs.findIdx p < n
  · rw [if_pos h, min_eq_right (le_of_lt h), if_pos h]
  · rw [if_neg h, min_eq_left (not_lt.mp h), if_neg (lt_irrefl n)]

namespace MplayerStdout

variable {name : PropertyName}

/-- One round of the loop. -/
theorem readAnswer_round (later : List (List OutputLine)) {s : MplayerStdout} (hpipe : s.pipe ≠ [])
    {line : OutputLine} {rest : List OutputLine} (hlines : s.buffer ++ s.pipe = line :: rest) :
    s.readAnswer name later
      = if name.begins line = true then (some (name.result line.buf), ⟨rest, []⟩)
        else match later with
          | [] => (none, ⟨rest, []⟩)
          | batch :: later => readAnswer name later ⟨rest, batch⟩ := by
  have hsome : s.pipe.isEmpty = false := List.isEmpty_eq_false_iff.mpr hpipe
  rw [← PropertyName.expects_buf]
  cases later with
  | nil =>
    unfold readAnswer fgets
    rw [hsome, hlines]
    rfl
  | cons batch later =>
    rw [readAnswer]
    unfold fgets
    rw [hsome, hlines]
    rfl

/-- **What the loop finds**: the first answer among as many lines as there
are rounds, those in the stream first. A round takes one line, however many
have come. -/
theorem readAnswer_eq (later : List (List OutputLine)) {s : MplayerStdout} (hpipe : s.pipe ≠ []) :
    (s.readAnswer name later).1
      = (((s.buffer ++ s.pipe ++ later.flatten).take (selects later)).find? name.begins).map
        fun line => name.result line.buf := by
  induction later generalizing s with
  | nil =>
    obtain ⟨line, rest, hlines⟩ := List.exists_cons_of_ne_nil
      (List.append_ne_nil_of_right_ne_nil s.buffer hpipe)
    rw [readAnswer_round [] hpipe hlines, hlines]
    show _ = ([line].find? name.begins).map _
    cases hb : name.begins line <;> simp [hb]
  | cons batch later ih =>
    obtain ⟨line, rest, hlines⟩ := List.exists_cons_of_ne_nil
      (List.append_ne_nil_of_right_ne_nil s.buffer hpipe)
    rw [readAnswer_round (batch :: later) hpipe hlines, hlines]
    cases batch with
    | nil =>
      -- nothing comes in time
      show _ = ([line].find? name.begins).map _
      have hend : (readAnswer name later ⟨rest, []⟩).1 = none := by
        unfold readAnswer
        rfl
      cases hb : name.begins line <;> simp [hb, hend]
    | cons next batch =>
      have hround := ih (s := ⟨rest, next :: batch⟩) (List.cons_ne_nil _ _)
      show _ = ((line :: (rest ++ ((next :: batch) ++ later.flatten)).take (selects later)).find?
        name.begins).map _
      rw [← List.append_assoc]
      cases hb : name.begins line <;> simp [hb, hround]

end MplayerStdout

/-! ## Answers that are found -/

namespace Listener

variable {F : Type} {atof : Bytes → F} {name : PropertyName}

/-- **An answer is found**: what it says is returned, and the player is known
to be alive. -/
def Finds (atof : Bytes → F) (name : PropertyName) (later : List (List OutputLine)) (now : ℤ)
    (s : Listener F) (line : OutputLine) : Prop :=
  (s.getProperty atof name later now).1 = some (line.text.drop name.answer.length)
    ∧ (s.getProperty atof name later now).2.last_alive = toInt32 now

/-- **An answer is within reach**: the first answer in the stream and then in
the pipe has fewer lines before it than there are rounds, and as C reads it,
it is this one. -/
structure WithinReach (name : PropertyName) (later : List (List OutputLine)) (s : MplayerStdout)
    (line : OutputLine) : Prop where
  inTime : (s.buffer ++ s.pipe).findIdx name.begins < selects later
  same : ∀ first, (s.buffer ++ s.pipe).find? name.begins = some first →
    cString first.text = line.text

/-- What `GetProperty` returns is the answer that its loop found. -/
theorem getProperty_fst (later : List (List OutputLine)) (now : ℤ) (s : Listener F) :
    (s.getProperty atof name later now).1 = (s.mplayer_stdout.readAnswer name later).1 := by
  unfold getProperty
  cases h : s.mplayer_stdout.readAnswer name later with
  | mk answer stdout => cases answer <;> rfl

/-- An answer shows that the player is alive. -/
theorem last_alive_of_answer {later : List (List OutputLine)} {now : ℤ} {s : Listener F}
    {result : Bytes} (h : (s.getProperty atof name later now).1 = some result) :
    (s.getProperty atof name later now).2.last_alive = toInt32 now := by
  rw [getProperty_fst] at h
  unfold getProperty
  cases hread : s.mplayer_stdout.readAnswer name later with
  | mk answer stdout =>
    rw [hread] at h
    rw [show answer = some result from h]

/-- Two answers are read as the same exactly if their lines are. -/
theorem cString_drop_eq_iff {first line : OutputLine} (hfirst : name.begins first = true)
    (hline : name.begins line = true) :
    cString (first.text.drop name.answer.length) = line.text.drop name.answer.length
      ↔ cString first.text = line.text := by
  obtain ⟨r, hr⟩ := PropertyName.begins_iff.mp hfirst
  obtain ⟨t, ht⟩ := PropertyName.begins_iff.mp hline
  rw [hr, ht, List.drop_left, List.drop_left, cString_append name.noZero_answer,
    List.append_cancel_left_eq]

/-- **`GetProperty` finds an answer that is in the pipe** exactly if it is
within reach. An answer with other lines before it is out of reach if nothing
more comes, although it is there.

A line is read from the stream, which takes all that is in the pipe into its
buffer; the next `select` looks at the pipe, which is empty by then. So each
line before the answer needs something else to come after it. -/
theorem getProperty_finds_iff (atof : Bytes → F) (name : PropertyName)
    (later : List (List OutputLine)) (now : ℤ) (s : Listener F) {line : OutputLine}
    (hline : s.mplayer_stdout.pipe.find? name.begins = some line) :
    s.Finds atof name later now line ↔ WithinReach name later s.mplayer_stdout line := by
  have hpipe : s.mplayer_stdout.pipe ≠ [] := by
    intro hnil
    rw [hnil] at hline
    cases hline
  have hfirst : ∃ first, (s.mplayer_stdout.buffer ++ s.mplayer_stdout.pipe).find? name.begins
      = some first := by
    rw [List.find?_append, hline]
    cases s.mplayer_stdout.buffer.find? name.begins with
    | none => exact ⟨line, rfl⟩
    | some first => exact ⟨first, rfl⟩
  obtain ⟨first, hfirst⟩ := hfirst
  have hidx : (s.mplayer_stdout.buffer ++ s.mplayer_stdout.pipe ++ later.flatten).findIdx
      name.begins = (s.mplayer_stdout.buffer ++ s.mplayer_stdout.pipe).findIdx name.begins := by
    rw [List.findIdx_append, if_pos]
    exact List.findIdx_lt_length_of_exists ⟨first, List.mem_of_find?_eq_some hfirst,
      List.find?_some hfirst⟩
  have hread : (s.getProperty atof name later now).1
      = if (s.mplayer_stdout.buffer ++ s.mplayer_stdout.pipe).findIdx name.begins < selects later
        then some (cString (first.text.drop name.answer.length)) else none := by
    rw [getProperty_fst, MplayerStdout.readAnswer_eq later hpipe, find?_take, hidx,
      List.find?_append, hfirst]
    split
    · show some (name.result first.buf) = _
      rw [PropertyName.result_buf (List.find?_some hfirst)]
    · rfl
  have hreads := cString_drop_eq_iff (List.find?_some hfirst) (List.find?_some hline)
  constructor
  · rintro ⟨hresult, -⟩
    rw [hread] at hresult
    split at hresult
    · rename_i htime
      refine ⟨htime, fun other hother => ?_⟩
      obtain rfl := Option.some.inj (hfirst.symm.trans hother)
      exact hreads.mp (Option.some.inj hresult)
    · cases hresult
  · rintro ⟨htime, hsame⟩
    have hresult : (s.getProperty atof name later now).1
        = some (line.text.drop name.answer.length) := by
      rw [hread, if_pos htime, hreads.mpr (hsame first hfirst)]
    exact ⟨hresult, last_alive_of_answer hresult⟩

/-- A line about the pause. -/
def pauseLine : OutputLine := ⟨ascii "ANS_pause=no", by decide, by decide⟩

/-- A line about something else. -/
def otherLine : OutputLine := ⟨ascii "Starting playback...", by decide, by decide⟩

/-- An answer that comes first is found, whatever is behind it. -/
theorem getProperty_finds_first :
    Finds (fun _ => (0 : ℤ)) Property.pause.name [] 100
      ⟨{ pipe := [pauseLine, otherLine] }, 0, {}⟩ pauseLine := by
  refine (getProperty_finds_iff _ _ _ _ _ (by rfl)).mpr ⟨by decide, fun first hfirst => ?_⟩
  obtain rfl := Option.some.inj hfirst
  rfl

/-- **An answer behind another line is overlooked**: it is in the stream by then,
and `select` looks at the pipe. -/
theorem getProperty_overlooks :
    [otherLine, pauseLine].find? Property.pause.name.begins = some pauseLine
      ∧ (getProperty (fun _ => (0 : ℤ)) Property.pause.name [] 100
        ⟨{ pipe := [otherLine, pauseLine] }, 0, {}⟩).1 = none
      ∧ ¬Finds (fun _ => (0 : ℤ)) Property.pause.name [] 100
        ⟨{ pipe := [otherLine, pauseLine] }, 0, {}⟩ pauseLine := by
  have hnone : (getProperty (fun _ => (0 : ℤ)) Property.pause.name [] 100
      ⟨{ pipe := [otherLine, pauseLine] }, 0, {}⟩).1 = none := by decide
  refine ⟨rfl, hnone, fun hfinds => ?_⟩
  rw [Finds, hnone] at hfinds
  cases hfinds.1

end Listener
