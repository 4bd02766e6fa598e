import Mathlib.Data.List.Basic
import Mathlib.Data.List.TakeWhile

/-!
# Reading a stream through a buffer

A stream is read line by line through a buffer of fixed size: a read takes the
elements up to the next newline, and stops before it where the buffer is full
(`read`, `reads`). So a line that is too long comes in several pieces, and the
reads of a stream are those of its lines, one after the other
(`reads_eq_flatMap`).

A stream that is read in chunks can have separators besides, and then a piece
between two separators may lie in several chunks. `fragments` keeps the chunks'
parts of each piece together: side by side they are the parts of the chunks
(`flatten_fragments`), and each put together they are the pieces of the stream
(`map_flatten_fragments`).
-/

namespace Buffered

variable {α : Type*} [DecidableEq α] (nl : α)

/-! ## Reads -/

/-- **One read**: at most `n` elements, the last of them the first newline if
that is among them. What was read, and what is left. -/
def read : ℕ → List α → List α × List α
  | 0, s => ([], s)
  | _ + 1, [] => ([], [])
  | n + 1, c :: s => if c = nl then ([c], s) else (read n s).map (c :: ·) id

/-- Some reads, until nothing is left. The number of them is fuel; no more
than there are elements are needed. -/
def readsOf (n : ℕ) : ℕ → List α → List (List α)
  | 0, _ => []
  | k + 1, s => if s = [] then [] else (read nl n s).1 :: readsOf n k (read nl n s).2

/-- **All that is read of a stream.** -/
def reads (n : ℕ) (s : List α) : List (List α) := readsOf nl n s.length s

variable {nl}

@[simp] theorem reads_nil (n : ℕ) : reads nl n [] = [] := rfl

theorem read_cons_of_ne {c : α} (hc : c ≠ nl) (n : ℕ) (s : List α) :
    read nl (n + 1) (c :: s) = (read nl n s).map (c :: ·) id := if_neg hc

variable (nl) in
theorem read_append (n : ℕ) (s : List α) : (read nl n s).1 ++ (read nl n s).2 = s := by
  induction n, s using read.induct nl with
  | case1 s => rfl
  | case2 n => rfl
  | case3 n s => simp [read]
  | case4 n c s hc ih => simp [read, hc, ih]

variable (nl) in
theorem read_fst_ne_nil {n : ℕ} (hn : 0 < n) {s : List α} (hs : s ≠ []) :
    (read nl n s).1 ≠ [] := by
  obtain ⟨m, rfl⟩ := Nat.exists_eq_add_of_lt hn
  obtain ⟨c, s, rfl⟩ := List.exists_cons_of_ne_nil hs
  by_cases hc : c = nl <;> simp [read, hc]

variable (nl) in
/-- What is left is shorter. -/
theorem length_read_snd_lt {n : ℕ} (hn : 0 < n) {s : List α} (hs : s ≠ []) :
    (read nl n s).2.length < s.length := by
  have hlen := congrArg List.length (read_append nl n s)
  have hpos := List.length_pos_iff.mpr (read_fst_ne_nil nl hn hs)
  rw [List.length_append] at hlen
  omega

/-- The number of reads that are allowed does not matter once it suffices. -/
theorem readsOf_eq {n : ℕ} (hn : 0 < n) (k : ℕ) (s : List α) (hk : s.length ≤ k) :
    readsOf nl n k s = reads nl n s := by
  have hmore : ∀ k j : ℕ, ∀ s : List α, s.length ≤ k → s.length ≤ j →
      readsOf nl n k s = readsOf nl n j s := by
    intro k
    induction k with
    | zero =>
      intro j s hk _
      obtain rfl := List.length_eq_zero_iff.mp (Nat.le_zero.mp hk)
      cases j <;> rfl
    | succ k ih =>
      intro j s hk hj
      by_cases hs : s = []
      · subst hs
        cases j <;> rfl
      · have hlt := length_read_snd_lt nl hn hs
        obtain ⟨j, rfl⟩ : ∃ i, j = i + 1 :=
          Nat.exists_eq_succ_of_ne_zero (by have := List.length_pos_iff.mpr hs; omega)
        unfold readsOf
        rw [if_neg hs, if_neg hs, ih j _ (by omega) (by omega)]
  exact hmore k s.length s hk (Nat.le_refl _)

/-- **The first read, and the others.** -/
theorem reads_of_ne_nil {n : ℕ} (hn : 0 < n) {s : List α} (hs : s ≠ []) :
    reads nl n s = (read nl n s).1 :: reads nl n (read nl n s).2 := by
  have hlt := length_read_snd_lt nl hn hs
  have hpos : s.length = s.length - 1 + 1 := by omega
  unfold reads
  rw [hpos]
  show (if s = [] then [] else _) = _
  rw [if_neg hs, readsOf_eq hn _ _ (by omega)]
  rfl

variable (nl) in
/-- What holds of a stream if it holds of nothing and of a stream whose first
read is followed by one of which it holds. -/
theorem read_induction {n : ℕ} (hn : 0 < n) {P : List α → Prop} (nil : P [])
    (step : ∀ s, s ≠ [] → P (read nl n s).2 → P s) (s : List α) : P s := by
  induction hlen : s.length using Nat.strongRecOn generalizing s with
  | ind k ih =>
    by_cases hs : s = []
    · rw [hs]
      exact nil
    · exact step s hs (ih _ (by rw [← hlen]; exact length_read_snd_lt nl hn hs) _ rfl)

/-- **Nothing is lost**: the chunks that are read are the stream. -/
theorem flatten_reads {n : ℕ} (hn : 0 < n) (s : List α) : (reads nl n s).flatten = s := by
  induction s using read_induction nl hn with
  | nil => rfl
  | step s hs ih => rw [reads_of_ne_nil hn hs, List.flatten_cons, ih, read_append]

/-! ## The reads of a line -/

/-- A read of a line that is too long for the buffer. -/
theorem read_of_le {n : ℕ} {body : List α} (hbody : nl ∉ body) (h : n ≤ body.length)
    (rest : List α) : read nl n (body ++ rest) = (body.take n, body.drop n ++ rest) := by
  induction body generalizing n with
  | nil =>
    obtain rfl := Nat.le_zero.mp h
    rfl
  | cons c body ih =>
    cases n with
    | zero => rfl
    | succ n =>
      have htail := List.not_mem_of_not_mem_cons hbody
      rw [List.cons_append, read_cons_of_ne (List.ne_of_not_mem_cons hbody).symm,
        ih htail (Nat.le_of_succ_le_succ h)]
      rfl

/-- A read of a line that fits. -/
theorem read_of_lt {n : ℕ} {body : List α} (hbody : nl ∉ body) (h : body.length < n)
    (rest : List α) : read nl n (body ++ nl :: rest) = (body ++ [nl], rest) := by
  induction body generalizing n with
  | nil =>
    obtain ⟨m, rfl⟩ := Nat.exists_eq_add_of_lt h
    simp [read]
  | cons c body ih =>
    cases n with
    | zero => exact absurd h (Nat.not_lt_zero _)
    | succ n =>
      have htail := List.not_mem_of_not_mem_cons hbody
      rw [List.cons_append, read_cons_of_ne (List.ne_of_not_mem_cons hbody).symm,
        ih htail (Nat.lt_of_succ_lt_succ h)]
      rfl

/-- A read of a last line that fits. -/
theorem read_last {n : ℕ} {t : List α} (ht : nl ∉ t) (h : t.length ≤ n) :
    read nl n t = (t, []) := by
  induction t generalizing n with
  | nil => cases n <;> rfl
  | cons c t ih =>
    cases n with
    | zero => exact absurd h (Nat.not_succ_le_zero _)
    | succ n =>
      have htail := List.not_mem_of_not_mem_cons ht
      rw [read_cons_of_ne (List.ne_of_not_mem_cons ht).symm, ih htail (Nat.le_of_succ_le_succ h)]
      rfl

/-- A line that fits is read at once. -/
theorem reads_of_lt {n : ℕ} {body : List α} (hbody : nl ∉ body) (h : body.length < n)
    (rest : List α) :
    reads nl n (body ++ nl :: rest) = (body ++ [nl]) :: reads nl n rest := by
  have hne : body ++ nl :: rest ≠ [] := by simp
  rw [reads_of_ne_nil (Nat.zero_lt_of_lt h) hne, read_of_lt hbody h]

/-- A line that does not fit fills the buffer first. -/
theorem reads_of_le {n : ℕ} (hn : 0 < n) {body : List α} (hbody : nl ∉ body) (h : n ≤ body.length)
    (rest : List α) :
    reads nl n (body ++ rest) = body.take n :: reads nl n (body.drop n ++ rest) := by
  have hne : body ++ rest ≠ [] := by
    intro hnil
    rw [(List.append_eq_nil_iff.mp hnil).1] at h
    exact absurd (Nat.le_zero.mp h) (Nat.ne_of_gt hn)
  rw [reads_of_ne_nil hn hne, read_of_le hbody h]

/-- A last line that fits is read at once. -/
theorem reads_last {n : ℕ} {t : List α} (ht : nl ∉ t) (hne : t ≠ []) (h : t.length ≤ n) :
    reads nl n t = [t] := by
  have hn : 0 < n := Nat.lt_of_lt_of_le (List.length_pos_iff.mpr hne) h
  rw [reads_of_ne_nil hn hne, read_last ht h, reads_nil]

/-! ## Lines -/

variable (nl) in
/-- The lines that end with a newline, without it. -/
def terminated (s : List α) : List (List α) := (s.splitOn nl).dropLast

variable (nl) in
/-- What follows the last newline. -/
def unterminated (s : List α) : List α := (s.splitOn nl).getLast (List.splitOn_ne_nil nl s)

variable (nl) in
/-- **The lines of a stream**, each with the newline it ends with. The last
line may have none. -/
def lines (s : List α) : List (List α) :=
  (terminated nl s).map (· ++ [nl]) ++ if unterminated nl s = [] then [] else [unterminated nl s]

variable (nl) in
/-- What holds of a stream if it holds without a newline, and of a line that is
followed by a stream of which it holds. -/
theorem line_induction {P : List α → Prop} (last : ∀ t, nl ∉ t → P t)
    (line : ∀ body rest, nl ∉ body → P rest → P (body ++ nl :: rest)) (s : List α) : P s := by
  induction hlen : s.length using Nat.strongRecOn generalizing s with
  | ind k ih =>
    by_cases hnl : nl ∈ s
    · obtain ⟨body, rest, rfl, hbody⟩ := List.eq_append_cons_of_mem hnl
      refine line body rest hbody (ih rest.length ?_ rest rfl)
      rw [← hlen, List.length_append, List.length_cons]
      omega
    · exact last s hnl

theorem terminated_last {t : List α} (ht : nl ∉ t) : terminated nl t = [] := by
  unfold terminated
  rw [List.splitOn_eq_singleton ht]
  rfl

theorem unterminated_last {t : List α} (ht : nl ∉ t) : unterminated nl t = t := by
  simp only [unterminated, List.splitOn_eq_singleton ht, List.getLast_singleton]

theorem terminated_line {body : List α} (hbody : nl ∉ body) (rest : List α) :
    terminated nl (body ++ nl :: rest) = body :: terminated nl rest := by
  unfold terminated
  rw [List.splitOn_append_cons_self_of_not_mem hbody,
    List.dropLast_cons_of_ne_nil (List.splitOn_ne_nil nl rest)]

theorem unterminated_line {body : List α} (hbody : nl ∉ body) (rest : List α) :
    unterminated nl (body ++ nl :: rest) = unterminated nl rest := by
  simp only [unterminated, List.splitOn_append_cons_self_of_not_mem hbody,
    List.getLast_cons (List.splitOn_ne_nil nl rest)]

/-- The lines of a stream are a line and those of the rest. -/
theorem lines_line {body : List α} (hbody : nl ∉ body) (rest : List α) :
    lines nl (body ++ nl :: rest) = (body ++ [nl]) :: lines nl rest := by
  unfold lines
  rw [terminated_line hbody, unterminated_line hbody, List.map_cons, List.cons_append]

theorem lines_last {t : List α} (ht : nl ∉ t) : lines nl t = if t = [] then [] else [t] := by
  unfold lines
  rw [terminated_last ht, unterminated_last ht, List.map_nil, List.nil_append]

/-- The reads of a line do not go into the next one. -/
theorem reads_line {n : ℕ} (hn : 0 < n) {body : List α} (hbody : nl ∉ body) (rest : List α) :
    reads nl n (body ++ nl :: rest) = reads nl n (body ++ [nl]) ++ reads nl n rest := by
  induction hlen : body.length using Nat.strongRecOn generalizing body with
  | ind k ih =>
    by_cases h : body.length < n
    · rw [reads_of_lt hbody h, reads_of_lt hbody h, reads_nil, List.singleton_append]
    · have hle := Nat.le_of_not_lt h
      have hdrop : nl ∉ body.drop n := fun hmem => hbody (List.mem_of_mem_drop hmem)
      rw [reads_of_le hn hbody hle, reads_of_le hn hbody hle,
        ih (body.drop n).length (by rw [List.length_drop]; omega) hdrop rfl, List.cons_append]

/-- **The reads of a stream are those of its lines**, one line after the
other: no read goes on beyond a newline. So what is shown of one line is
shown of a stream. -/
theorem reads_eq_flatMap {n : ℕ} (hn : 0 < n) (s : List α) :
    reads nl n s = (lines nl s).flatMap (reads nl n) := by
  induction s using line_induction nl with
  | last t ht =>
    rw [lines_last ht]
    by_cases h : t = []
    · rw [if_pos h, h]
      rfl
    · rw [if_neg h, List.flatMap_singleton]
  | line body rest hbody ih =>
    rw [lines_line hbody, List.flatMap_cons, reads_line hn hbody, ih]

/-- A line has a read. -/
theorem reads_ne_nil {n : ℕ} (hn : 0 < n) {s : List α} (hs : s ≠ []) : reads nl n s ≠ [] := by
  rw [reads_of_ne_nil hn hs]
  exact List.cons_ne_nil _ _

/-- A line that ended has no other newline, and its elements are the stream's. -/
theorem of_mem_terminated {s body : List α} (h : body ∈ terminated nl s) :
    nl ∉ body ∧ ∀ c ∈ body, c ∈ s := by
  induction s using line_induction nl with
  | last t ht =>
    rw [terminated_last ht] at h
    exact absurd h List.not_mem_nil
  | line first rest hfirst ih =>
    rw [terminated_line hfirst] at h
    rcases List.mem_cons.mp h with rfl | h
    · exact ⟨hfirst, fun c hc => List.mem_append_left _ hc⟩
    · obtain ⟨hbody, hmem⟩ := ih h
      exact ⟨hbody, fun c hc => List.mem_append_right _ (List.mem_cons_of_mem _ (hmem c hc))⟩

/-- A line ends with its only newline, or is the last one. -/
theorem of_mem_lines {s l : List α} (h : l ∈ lines nl s) :
    (∃ body, nl ∉ body ∧ l = body ++ [nl]) ∨ nl ∉ l ∧ l ≠ [] := by
  induction s using line_induction nl with
  | last t ht =>
    rw [lines_last ht] at h
    split at h
    · exact absurd h List.not_mem_nil
    · rename_i hne
      rw [List.mem_singleton.mp h]
      exact Or.inr ⟨ht, hne⟩
  | line body rest hbody ih =>
    rw [lines_line hbody] at h
    rcases List.mem_cons.mp h with rfl | h
    · exact Or.inl ⟨body, hbody, rfl⟩
    · exact ih h

theorem ne_nil_of_mem_lines {s l : List α} (h : l ∈ lines nl s) : l ≠ [] := by
  rcases of_mem_lines h with ⟨body, -, rfl⟩ | ⟨-, hne⟩
  · simp
  · exact hne

variable (nl) in
theorem length_read_fst_le (n : ℕ) (s : List α) : (read nl n s).1.length ≤ n := by
  induction n, s using read.induct nl with
  | case1 s => exact Nat.le_refl _
  | case2 n => exact Nat.zero_le _
  | case3 n s => simp [read]
  | case4 n c s hc ih =>
    rw [read_cons_of_ne hc]
    exact Nat.succ_le_succ ih

/-- **A line is read at once exactly when there is room for it**, with the
newline that it ends with. -/
theorem reads_eq_singleton_iff {n : ℕ} (hn : 0 < n) {s l : List α} (h : l ∈ lines nl s) :
    reads nl n l = [l] ↔ l.length ≤ n := by
  constructor
  · intro heq
    rw [reads_of_ne_nil hn (ne_nil_of_mem_lines h)] at heq
    have hlen := length_read_fst_le nl n l
    rwa [(List.cons.inj heq).1] at hlen
  · intro hle
    rcases of_mem_lines h with ⟨body, hbody, rfl⟩ | ⟨hnl, hne⟩
    · rw [List.length_append, List.length_singleton] at hle
      exact reads_of_lt hbody hle []
    · exact reads_last hnl hne hle

/-- Where there is room for every line, the reads are the lines. -/
theorem reads_eq_lines {n : ℕ} (hn : 0 < n) {s : List α} (h : ∀ l ∈ lines nl s, l.length ≤ n) :
    reads nl n s = lines nl s := by
  rw [reads_eq_flatMap hn]
  calc (lines nl s).flatMap (reads nl n)
      = (lines nl s).flatMap (fun l => [l]) :=
        List.flatMap_congr fun l hl => (reads_eq_singleton_iff hn hl).mpr (h l hl)
    _ = lines nl s := List.flatMap_singleton' _

/-- A chunk has a newline at its end if it has one. -/
theorem nl_notMem_dropLast_read (n : ℕ) (s : List α) : nl ∉ (read nl n s).1.dropLast := by
  induction n, s using read.induct nl with
  | case1 s => exact List.not_mem_nil
  | case2 n => exact List.not_mem_nil
  | case3 n s => simp [read]
  | case4 n c s hc ih =>
    rw [read_cons_of_ne hc]
    show nl ∉ (c :: (read nl n s).1).dropLast
    cases hread : (read nl n s).1 with
    | nil => simp
    | cons d r =>
      rw [hread] at ih
      rw [List.dropLast_cons_of_ne_nil (List.cons_ne_nil _ _)]
      exact fun hmem => (List.mem_cons.mp hmem).elim (fun h => hc h.symm) ih

/-- A read has at most as many elements as there is room for. -/
theorem length_le_of_mem_reads {n : ℕ} (hn : 0 < n) {s c : List α} (h : c ∈ reads nl n s) :
    c.length ≤ n := by
  induction s using read_induction nl hn with
  | nil => exact absurd h List.not_mem_nil
  | step s hs ih =>
    rw [reads_of_ne_nil hn hs] at h
    rcases List.mem_cons.mp h with rfl | h
    · exact length_read_fst_le nl n s
    · exact ih h

theorem nl_notMem_dropLast {n : ℕ} (hn : 0 < n) {s c : List α} (h : c ∈ reads nl n s) :
    nl ∉ c.dropLast := by
  induction s using read_induction nl hn with
  | nil => exact absurd h List.not_mem_nil
  | step s hs ih =>
    rw [reads_of_ne_nil hn hs] at h
    rcases List.mem_cons.mp h with rfl | h
    · exact nl_notMem_dropLast_read n s
    · exact ih h

/-! ## Pieces that lie in several chunks -/

section Fragments

variable {β : Type*} (sep : β → Bool)

/-- The pieces of a chunk in front of those of the rest: its last one goes on
with the first one of the rest. -/
def glue : List (List β) → List (List (List β)) → List (List (List β))
  | [], gs => gs
  | [x], [] => [[x]]
  | [x], g :: gs => (x :: g) :: gs
  | x :: y :: xs, gs => [x] :: glue (y :: xs) gs

/-- **The pieces between the separators of a stream**, each with its
fragments in the chunks it is read in. A piece that lies in one chunk has one
fragment. -/
def fragments : List (List β) → List (List (List β))
  | [] => [[]]
  | chunk :: rest => glue (chunk.splitOnP sep) (fragments rest)

variable {sep}

theorem flatten_glue (xs : List (List β)) (gs : List (List (List β))) :
    (glue xs gs).flatten = xs ++ gs.flatten := by
  induction xs, gs using glue.induct with
  | case1 gs => rfl
  | case2 x => rfl
  | case3 x g gs => rfl
  | case4 gs x y xs ih =>
    rw [glue, List.flatten_cons, ih]
    rfl

/-- **Side by side, the fragments are the pieces of the chunks.** -/
theorem flatten_fragments (chunks : List (List β)) :
    (fragments sep chunks).flatten = chunks.flatMap (List.splitOnP sep) := by
  induction chunks with
  | nil => rfl
  | cons chunk rest ih => rw [fragments, flatten_glue, ih, List.flatMap_cons]

/-- The pieces of two streams, the one after the other: the last piece of the
one and the first piece of the other are one piece. -/
theorem map_flatten_glue (a : List β) {b : List β} {gs : List (List (List β))}
    (hgs : gs.map List.flatten = b.splitOnP sep) :
    (glue (a.splitOnP sep) gs).map List.flatten = (a ++ b).splitOnP sep := by
  induction a with
  | nil =>
    obtain ⟨g, gs, rfl⟩ : ∃ g gs', gs = g :: gs' := by
      cases gs with
      | nil => exact absurd hgs.symm (List.splitOnP_ne_nil sep b)
      | cons g gs => exact ⟨g, gs, rfl⟩
    exact hgs
  | cons c a ih =>
    obtain ⟨x, xs, hx⟩ := List.exists_cons_of_ne_nil (List.splitOnP_ne_nil sep a)
    rw [List.cons_append, List.splitOnP_cons_eq_if_modifyHead, List.splitOnP_cons_eq_if_modifyHead,
      ← ih, hx]
    split
    · rfl
    · cases xs with
      | cons y xs => rfl
      | nil => cases gs <;> rfl

/-- **Put together, the fragments are the pieces of the stream.** By
induction on the chunks, as gluing puts together what a cut between two
chunks has taken apart. -/
theorem map_flatten_fragments (chunks : List (List β)) :
    (fragments sep chunks).map List.flatten = chunks.flatten.splitOnP sep := by
  induction chunks with
  | nil => rfl
  | cons chunk rest ih => exact map_flatten_glue chunk ih

theorem fragments_ne_nil (chunks : List (List β)) : fragments sep chunks ≠ [] := by
  intro h
  refine List.splitOnP_ne_nil sep chunks.flatten ?_
  rw [← map_flatten_fragments, h]
  rfl

/-- Only the last piece of a chunk goes on with the rest. -/
theorem glue_concat (xs : List (List β)) (y : List β) (g : List (List β))
    (gs : List (List (List β))) :
    glue (xs ++ [y]) (g :: gs) = xs.map (fun x => [x]) ++ (y :: g) :: gs := by
  induction xs with
  | nil => rfl
  | cons x xs ih =>
    cases xs with
    | nil => rfl
    | cons x' xs => exact congrArg ([x] :: ·) ih

/-- **A piece is not cut where the chunks are lines** and newlines are
separators: it is a fragment of its own. A line ends in a separator, so the
next one starts with a new piece; what the two share is an empty fragment. -/
theorem flatten_mem_of_lines [DecidableEq β] {nl : β} (hnl : sep nl = true) (s : List β) :
    ∀ g ∈ fragments sep (lines nl s), g = [] ∨ g.flatten ∈ g := by
  have hone : ∀ (xs : List (List β)) (g : List (List β)), g ∈ xs.map (fun x => [x]) →
      g = [] ∨ g.flatten ∈ g := by
    intro xs g hg
    obtain ⟨x, -, rfl⟩ := List.mem_map.mp hg
    exact Or.inr (by simp)
  induction s using line_induction nl with
  | last t ht =>
    rw [lines_last ht]
    intro g hg
    split at hg
    · exact Or.inl (List.mem_singleton.mp hg)
    · obtain ⟨xs, y, hsplit⟩ : ∃ xs y, t.splitOnP sep = xs ++ [y] :=
        ⟨_, _, (List.dropLast_concat_getLast (List.splitOnP_ne_nil sep t)).symm⟩
      have hglue : fragments sep [t] = (xs ++ [y]).map (fun x => [x]) := by
        show glue (t.splitOnP sep) [[]] = _
        rw [hsplit, glue_concat, List.map_append]
        rfl
      rw [hglue] at hg
      exact hone _ g hg
  | line body rest hbody ih =>
    obtain ⟨g₀, gs, hrest⟩ := List.exists_cons_of_ne_nil (fragments_ne_nil (lines nl rest))
    have hglue : fragments sep (lines nl (body ++ nl :: rest))
        = (body.splitOnP sep).map (fun x => [x]) ++ ([] :: g₀) :: gs := by
      rw [lines_line hbody]
      show glue ((body ++ [nl]).splitOnP sep) (fragments sep (lines nl rest)) = _
      rw [List.splitOnP_append_cons body [] hnl, hrest]
      exact glue_concat (body.splitOnP sep) [] g₀ gs
    rw [hrest] at ih
    rw [hglue]
    intro g hg
    rcases List.mem_append.mp hg with hg | hg
    · exact hone _ g hg
    · rcases List.mem_cons.mp hg with rfl | hg
      · rcases ih g₀ (List.mem_cons_self ..) with rfl | hmem
        · exact Or.inr (List.mem_cons_self ..)
        · exact Or.inr (List.mem_cons_of_mem _ hmem)
      · exact ih g (List.mem_cons_of_mem _ hg)

end Fragments

end Buffered

/-! ## C streams -/

/-- A byte string as C reads it, up to the first zero. -/
def cString (b : List UInt8) : List UInt8 := b.takeWhile (fun c => c != 0)

/-- What `while (fgets(buf, size, stream))` finds in the buffer, time after
time. -/
def fgetsAll (size : ℕ) (stream : List UInt8) : List (List UInt8) :=
  Buffered.reads 10 (size - 1) stream

theorem cString_of_noZero {b : List UInt8} (h : 0 ∉ b) : cString b = b := by
  refine List.takeWhile_eq_self_iff.mpr fun c hc => ?_
  exact bne_iff_ne.mpr fun hzero => h (hzero ▸ hc)
