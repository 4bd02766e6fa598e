import RctAutomation.OverrideQueue

/-!
# The loop of the manual override

`ManualOverride` goes on as long as a human is in control or the override playlist has
tracks. It reads the one and then the other, takes the first track and plays it, while
web clients give control back and forth and merge their requests into the
playlist. Everything it does can meet any number of requests on its way.

Nothing is played twice or out of turn: the tracks that were taken and those that are
left are among the ones that were there and the ones that were added, in this order.
None of them is lost unless a request overwrites the playlist, and the loop returns with
none left. It does not return while a human is in control (`override_plays_queued`).
-/

open Sql Transitions

/-- **Where the loop is**: it reads who is in control, and then the size of the playlist;
takes a track; plays it, or sleeps if it took none; or has returned, or ended the
process. -/
inductive OverrideLine
  | reading
  | sizing
  | taking
  | playing (next : PlayableItem)
  | sleeping
  | returned
  | ended
  deriving DecidableEq

/-- The track that was taken and is about to be played. -/
def OverrideLine.track : OverrideLine → List PlayableItem
  | .playing next => [next]
  | _ => []

/-- The loop, and what it shares with the web clients: who is in control, and
the playlist. The track that was taken and what was played are its own. -/
structure Overriding where
  override_ : Bool
  override_playlist : Playlist
  line : OverrideLine
  did_anything : Bool
  /-- The tracks that were handed to the player. -/
  played : List PlayableItem

/-- What happens: the loop does its next thing, with the database and the chance that it
meets and whether that ends the process; a client takes or gives back control, or
merges a request into the playlist. -/
inductive OverrideAct
  | loop (ch : Chance) (db : Db) (ends : Bool)
  | set_manual_override (value : Bool)
  | merge (request : PlaylistMergeRequest) (replace : Bool)

namespace Overriding

variable (fp : FloatOps)

/-- **The next thing that the loop does**, between two points at which a
request can come in. An exception of `Play` and a shutdown end the process. -/
def loop (ch : Chance) (db : Db) (ends : Bool) (s : Overriding) : Option Overriding :=
  match s.line with
  | .reading =>
    if s.override_ then some { s with line := .taking, did_anything := true }
    else some { s with line := .sizing }
  | .sizing =>
    if s.override_playlist.size ≠ 0 then some { s with line := .taking, did_anything := true }
    else some { s with line := .returned }
  | .taking =>
    (s.override_playlist.popFront (catalog fp ch) db {}).map fun (override_playlist, next) =>
      { s with
        override_playlist := override_playlist
        line := if next.filename.isSome then .playing next else .sleeping }
  | .playing next =>
    some { s with played := s.played ++ [next], line := if ends then .ended else .reading }
  | .sleeping => some { s with line := if ends then .ended else .reading }
  | .returned => none
  | .ended => none

/-- The state after an action. A request can act at any time, and the loop
makes its steps one by one. -/
def next (s : Overriding) : OverrideAct → Option Overriding
  | .loop ch db ends => s.loop fp ch db ends
  | .set_manual_override value => some { s with override_ := value }
  | .merge request replace =>
    some { s with override_playlist := s.override_playlist.applyMergeRequest request replace }

/-- A step of the loop or of a client. -/
def Step (s : Overriding) (a : OverrideAct) (s' : Overriding) : Prop := s.next fp a = some s'

/-- The IDs that are left. -/
def queue (s : Overriding) : List ℤ := s.override_playlist.queue

/-- The tracks that were taken, played or about to be. A track without a file
is not among them, since the loop passes over it. -/
def tracks (s : Overriding) : List PlayableItem := s.played ++ s.line.track

/-- The IDs that a step adds to the playlist. -/
def adds (_ : Overriding) : OverrideAct → List ℤ
  | .merge request _ => request.playableItemID.filter (· ≠ 0)
  | _ => []

/-- The ID that a step takes from it, with the database it is looked up in.
It is the first one that is left, and only the step of `PopFront` takes one. -/
def takes (s : Overriding) : OverrideAct → List (ℤ × Db)
  | .loop _ db _ =>
    match s.line with
    | .taking => (s.queue.head?.map fun i => (i, db)).toList
    | _ => []
  | _ => []

/-- The track of an ID, if it has a file. -/
def playable (x : ℤ × Db) : Option PlayableItem :=
  let item := PlayableItem.stored fp x.2 x.1
  if item.filename.isSome then some item else none

variable {fp} {s s' : Overriding} {a : OverrideAct}

/-- **The track that is taken is the first one** that is left, and the others
stay in their order. -/
theorem popFront_spec (fp : FloatOps) (ch : Chance) (db : Db) (p : Playlist) :
    ∃ p', p.popFront (catalog fp ch) db {}
        = some (p', p.queue.head?.elim {} (PlayableItem.stored fp db))
      ∧ p'.queue = p.queue.tail := by
  obtain ⟨⟨ids, r⟩, hloop, heq⟩ :=
    Option.map_eq_some_iff.mp (Playlist.popFrontLoop_eq fp ch db p.playableItemID)
  obtain ⟨hids, rfl⟩ := Prod.mk.inj heq
  refine ⟨{ p with playableItemID := ids }, ?_, hids⟩
  unfold Playlist.popFront
  rw [hloop]
  rfl

/-- A request adds to the end of the playlist, after everything that it overwrites is
gone. -/
theorem queue_applyMergeRequest (p : Playlist) (request : PlaylistMergeRequest) (replace : Bool) :
    (p.applyMergeRequest request replace).queue
      = (if replace then [] else p.queue) ++ request.playableItemID.filter (· ≠ 0) := by
  unfold Playlist.queue
  rw [Playlist.applyMergeRequest_eq]
  cases replace with
  | false => exact List.filter_append ..
  | true => rfl

/-- An action overwrites the playlist. -/
def OverrideAct.Overwrites : OverrideAct → Prop
  | .merge _ replace => replace = true
  | _ => False

/-- **A step takes the first track, or adds at the end.** What is taken and
what is left afterwards is what was left before and what was added. This is
the invariant of the run, step by step; a request that overwrites the
playlist is left out, as it drops what is left. -/
theorem queue_step (hstep : Step fp s a s') (hkeeps : ¬OverrideAct.Overwrites a) :
    (s.takes a).map Prod.fst ++ s'.queue = s.queue ++ s.adds a
      ∧ s'.tracks = s.tracks ++ (s.takes a).filterMap (playable fp) := by
  cases a with
  | set_manual_override value =>
    obtain rfl := Option.some.inj hstep
    exact ⟨(List.append_nil _).symm, (List.append_nil _).symm⟩
  | merge request replace =>
    obtain rfl : replace = false := Bool.eq_false_iff.mpr hkeeps
    obtain rfl := Option.some.inj hstep
    exact ⟨queue_applyMergeRequest _ request false, (List.append_nil _).symm⟩
  | loop ch db ends =>
    replace hstep : s.loop fp ch db ends = some s' := hstep
    obtain ⟨override_, p, line, did, played⟩ := s
    cases line with
    | reading =>
      cases override_ <;> obtain rfl := Option.some.inj hstep <;>
        exact ⟨(List.append_nil _).symm, (List.append_nil _).symm⟩
    | sizing =>
      unfold loop at hstep
      dsimp only at hstep
      split at hstep <;> obtain rfl := Option.some.inj hstep <;>
        exact ⟨(List.append_nil _).symm, (List.append_nil _).symm⟩
    | taking =>
      obtain ⟨p', hpop, hqueue⟩ := popFront_spec fp ch db p
      unfold loop at hstep
      dsimp only at hstep
      rw [hpop] at hstep
      obtain rfl := Option.some.inj hstep
      have htakes : takes ⟨override_, p, .taking, did, played⟩ (.loop ch db ends)
          = (p.queue.head?.map fun i => (i, db)).toList := rfl
      rw [htakes]
      show _ ++ p'.queue = p.queue ++ [] ∧ played ++ OverrideLine.track (if _ then _ else _)
        = (played ++ []) ++ _
      rw [hqueue, List.append_nil, List.append_nil]
      cases p.queue with
      | nil => exact ⟨rfl, rfl⟩
      | cons i q =>
        refine ⟨rfl, congrArg (played ++ ·) ?_⟩
        show OverrideLine.track (if (PlayableItem.stored fp db i).filename.isSome then _ else _)
          = [(i, db)].filterMap (playable fp)
        rw [List.filterMap_cons]
        unfold playable
        dsimp only
        cases (PlayableItem.stored fp db i).filename.isSome <;> rfl
    | playing next =>
      obtain rfl := Option.some.inj hstep
      refine ⟨(List.append_nil _).symm, ?_⟩
      cases ends <;> simp [tracks, OverrideLine.track, takes]
    | sleeping =>
      obtain rfl := Option.some.inj hstep
      refine ⟨(List.append_nil _).symm, ?_⟩
      cases ends <;> simp [tracks, OverrideLine.track, takes]
    | returned => cases hstep
    | ended => cases hstep

/-! ## Runs -/

variable {s₀ : Overriding} {trace : List (Overriding × OverrideAct)}

/-- What was added to the playlist in a run. -/
def added (trace : List (Overriding × OverrideAct)) : List ℤ := trace.flatMap fun x => x.1.adds x.2

/-- What was taken from it. -/
def taken (trace : List (Overriding × OverrideAct)) : List (ℤ × Db) :=
  trace.flatMap fun x => x.1.takes x.2

/-- A step that overwrites the playlist takes nothing from it. -/
theorem overwrites_step (hstep : Step fp s a s') (hover : OverrideAct.Overwrites a) :
    s.takes a = [] ∧ s'.queue = s.adds a ∧ s'.tracks = s.tracks := by
  cases a with
  | set_manual_override value => cases hover
  | loop ch db ends => cases hover
  | merge request replace =>
    obtain rfl : replace = true := hover
    obtain rfl := Option.some.inj hstep
    exact ⟨rfl, queue_applyMergeRequest _ request true, rfl⟩

theorem added_concat (trace : List (Overriding × OverrideAct)) (x : Overriding × OverrideAct) :
    added (trace ++ [x]) = added trace ++ x.1.adds x.2 := by
  unfold added
  rw [List.flatMap_append, List.flatMap_singleton]

theorem taken_concat (trace : List (Overriding × OverrideAct)) (x : Overriding × OverrideAct) :
    taken (trace ++ [x]) = taken trace ++ x.1.takes x.2 := by
  unfold taken
  rw [List.flatMap_append, List.flatMap_singleton]

/-- **The tracks are the ones that were taken**, and these and what is left
are among what was there and what was added, in the order in which it came.
An overwriting request drops what is left, and keeps this true. -/
theorem queue_run (hrun : Run (Step fp) s₀ trace s) :
    ((taken trace).map Prod.fst ++ s.queue).Sublist (s₀.queue ++ added trace)
      ∧ s.tracks = s₀.tracks ++ (taken trace).filterMap (playable fp) := by
  induction hrun with
  | nil =>
    rw [show added ([] : List (Overriding × OverrideAct)) = [] from rfl, List.append_nil]
    exact ⟨List.Sublist.refl _, (List.append_nil _).symm⟩
  | @snoc trace s s' a hrun hstep ih =>
    obtain ⟨hqueue, htracks⟩ := ih
    rw [added_concat, taken_concat, ← List.append_assoc]
    by_cases hover : OverrideAct.Overwrites a
    · obtain ⟨htakes, hqueue', htracks'⟩ := overwrites_step hstep hover
      rw [htakes, List.append_nil, hqueue', htracks']
      exact ⟨((List.sublist_append_left _ _).trans hqueue).append_right _, htracks⟩
    · obtain ⟨hqueue', htracks'⟩ := queue_step hstep hover
      rw [List.map_append, List.append_assoc, hqueue', ← List.append_assoc, htracks', htracks,
        List.filterMap_append]
      exact ⟨hqueue.append_right _, List.append_assoc ..⟩

/-- **What was taken and what is left** is what was there and what was added,
if nothing was overwritten: nothing is lost. -/
theorem queue_run_eq (hrun : Run (Step fp) s₀ trace s)
    (hkeeps : ∀ x ∈ trace, ¬OverrideAct.Overwrites x.2) :
    (taken trace).map Prod.fst ++ s.queue = s₀.queue ++ added trace := by
  induction hrun with
  | nil => exact (List.append_nil _).symm
  | @snoc trace s s' a hrun hstep ih =>
    have hqueue := ih fun x hx => hkeeps x (List.mem_append_left _ hx)
    have hqueue' := (queue_step hstep
      (hkeeps (s, a) (List.mem_append_right _ (List.mem_singleton_self _)))).1
    rw [added_concat, taken_concat, List.map_append, List.append_assoc, hqueue',
      ← List.append_assoc, hqueue, List.append_assoc]

/-- **The loop returns when it finds the playlist empty**, and nobody in
control when it looked at that before. A request can take control or add a
track between the two reads of the condition; of these only the track makes a
difference. -/
theorem queue_of_returned (hstep : Step fp s a s') (hline : s.line ≠ .returned)
    (hreturned : s'.line = .returned) :
    s.line = .sizing ∧ s.queue = [] ∧ s'.played = s.played := by
  cases a with
  | set_manual_override value =>
    obtain rfl := Option.some.inj hstep
    exact absurd hreturned hline
  | merge request replace =>
    obtain rfl := Option.some.inj hstep
    exact absurd hreturned hline
  | loop ch db ends =>
    replace hstep : s.loop fp ch db ends = some s' := hstep
    obtain ⟨override_, p, line, did, played⟩ := s
    cases line with
    | reading => cases override_ <;> obtain rfl := Option.some.inj hstep <;> cases hreturned
    | sizing =>
      unfold loop at hstep
      dsimp only at hstep
      split at hstep
      · obtain rfl := Option.some.inj hstep
        cases hreturned
      · rename_i hsize
        obtain rfl := Option.some.inj hstep
        refine ⟨rfl, List.length_eq_zero_iff.mp ?_, rfl⟩
        exact p.size_eq_length.symm.trans (not_not.mp hsize)
    | taking =>
      obtain ⟨⟨p', next⟩, -, rfl⟩ := Option.map_eq_some_iff.mp hstep
      cases hnext : next.filename.isSome <;> simp [hnext] at hreturned
    | playing next =>
      obtain rfl := Option.some.inj hstep
      cases ends <;> cases hreturned
    | sleeping =>
      obtain rfl := Option.some.inj hstep
      cases ends <;> cases hreturned
    | returned => cases hstep
    | ended => cases hstep

/-- While a human is in control the size is not read, and the loop does not
return. It is the flag that is read first, and the size only if it is off. -/
theorem line_of_controlled (hstep : Step fp s a s') (hcontrol : s.override_ = true)
    (hline : s.line ≠ .sizing ∧ s.line ≠ .returned) :
    s'.line ≠ .sizing ∧ s'.line ≠ .returned := by
  refine ⟨?_, fun hreturned => hline.1 (queue_of_returned hstep hline.2 hreturned).1⟩
  cases a with
  | set_manual_override value =>
    obtain rfl := Option.some.inj hstep
    exact hline.1
  | merge request replace =>
    obtain rfl := Option.some.inj hstep
    exact hline.1
  | loop ch db ends =>
    replace hstep : s.loop fp ch db ends = some s' := hstep
    obtain ⟨override_, p, line, did, played⟩ := s
    cases line with
    | reading =>
      obtain rfl : override_ = true := hcontrol
      obtain rfl := Option.some.inj hstep
      exact nofun
    | sizing => exact absurd rfl hline.1
    | taking =>
      obtain ⟨⟨p', next⟩, -, rfl⟩ := Option.map_eq_some_iff.mp hstep
      dsimp only
      split <;> rintro ⟨⟩
    | playing next =>
      obtain rfl := Option.some.inj hstep
      cases ends <;> exact nofun
    | sleeping =>
      obtain rfl := Option.some.inj hstep
      cases ends <;> exact nofun
    | returned => cases hstep
    | ended => cases hstep

/-- **What is queued is played, once and in order.** Wherever requests come between the
steps of the loop, the tracks that were taken and then those that are left are among the
ones that were there and were added, in their order, and of the ones that were taken those
that have a file are played. If no request overwrites the playlist, none is missing, and
when the loop returns it has taken all of them. It does not return while a human is in
control. -/
theorem override_plays_queued (fp : FloatOps) {s₀ s : Overriding}
    {trace : List (Overriding × OverrideAct)} (hstart : s₀.line = .reading)
    (hrun : Run (Step fp) s₀ trace s) :
    (((taken trace).map Prod.fst ++ s.queue).Sublist (s₀.queue ++ added trace)
      ∧ s.tracks = s₀.played ++ (taken trace).filterMap (playable fp))
    ∧ ((∀ x ∈ trace, ¬OverrideAct.Overwrites x.2) →
      (taken trace).map Prod.fst ++ s.queue = s₀.queue ++ added trace
      ∧ ∀ a s', Step fp s a s' → s.line ≠ .returned → s'.line = .returned →
        (taken trace).map Prod.fst = s₀.queue ++ added trace
          ∧ s'.played = s₀.played ++ (taken trace).filterMap (playable fp))
    ∧ ((∀ x ∈ trace, x.1.override_ = true) → s.line ≠ .returned) := by
  obtain ⟨hqueue, htracks⟩ := queue_run hrun
  have hstart' : s₀.tracks = s₀.played := by
    unfold tracks
    rw [hstart]
    exact List.append_nil _
  rw [hstart'] at htracks
  refine ⟨⟨hqueue, htracks⟩, fun hkeeps => ?_, fun hcontrol => ?_⟩
  · have hall := queue_run_eq hrun hkeeps
    refine ⟨hall, fun a s' hstep hline hreturned => ?_⟩
    obtain ⟨hsizing, hempty, hplayed⟩ := queue_of_returned hstep hline hreturned
    rw [hempty, List.append_nil] at hall
    refine ⟨hall, hplayed.trans (Eq.trans ?_ htracks)⟩
    unfold tracks
    rw [hsizing]
    exact (List.append_nil _).symm
  · have hline : s₀.line ≠ .sizing ∧ s₀.line ≠ .returned := by
      rw [hstart]
      exact ⟨nofun, nofun⟩
    exact (hrun.invariant (fun s => s.line ≠ .sizing ∧ s.line ≠ .returned)
      (fun s _ => s.override_ = true) hline
      (fun _ _ _ hline hcontrol hstep => line_of_controlled hstep hcontrol hline) hcontrol).1.2

/-- A loop that starts with the first of two songs queued. -/
def twoSongs : Overriding := ⟨false, { playableItemID := [1] }, .reading, false, []⟩

/-- The database of the two songs. -/
def twoSongsDb : Db :=
  databaseOf
    [.item { filename := some (ascii "a.ogg") }, .item { filename := some (ascii "b.ogg") }]

/-- The loop going on, with nothing in its way. -/
def goesOn : OverrideAct := .loop .stored twoSongsDb false

/-- The loop plays the first song, and the second one, which is queued meanwhile. -/
def twoSongsActs : List OverrideAct :=
  [goesOn, goesOn, goesOn, .merge { playableItemID := [2] } false, goesOn, goesOn, goesOn, goesOn,
    goesOn, goesOn]

/-- The second song is queued while the first one is played. -/
theorem override_plays_queued_two :
    ∃ trace s s', Run (Step .whole) twoSongs trace s ∧ Step .whole s goesOn s'
      ∧ s'.line = .returned ∧ (taken trace).map Prod.fst = [1, 2] ∧ s'.played.length = 2 := by
  have hlast : ((twoSongsActs.foldlM (next .whole) twoSongs).bind fun s =>
      (s.next .whole goesOn).map fun s' =>
        (decide (s.line = .returned), decide (s'.line = .returned), s'.played.length))
      = some (false, true, 2) := by decide +kernel
  obtain ⟨s, hs, hlast⟩ := Option.bind_eq_some_iff.mp hlast
  obtain ⟨s', hstep, heq⟩ := Option.map_eq_some_iff.mp hlast
  obtain ⟨hline, hrest⟩ := Prod.mk.inj heq
  obtain ⟨hreturned, hplayed⟩ := Prod.mk.inj hrest
  obtain ⟨trace, hrun, hacts⟩ := Run.of_foldlM hs
  have hkeeps : ∀ x ∈ trace, ¬OverrideAct.Overwrites x.2 := by
    intro x hx
    have hmem : x.2 ∈ twoSongsActs := hacts ▸ List.mem_map_of_mem hx
    have hall : ∀ a ∈ twoSongsActs, ¬OverrideAct.Overwrites a := by
      simp [twoSongsActs, goesOn, OverrideAct.Overwrites]
    exact hall x.2 hmem
  have hadded : added trace = [2] := by
    have hmap : added trace = (trace.map Prod.snd).flatMap twoSongs.adds := by
      unfold added
      rw [List.flatMap_map]
      rfl
    rw [hmap, hacts]
    rfl
  have hall := ((override_plays_queued .whole rfl hrun).2.1 hkeeps).2 goesOn s' hstep
    (of_decide_eq_false hline) (of_decide_eq_true hreturned)
  refine ⟨trace, s, s', hrun, hstep, of_decide_eq_true hreturned, hall.1.trans ?_, hplayed⟩
  rw [hadded]
  rfl

end Overriding
