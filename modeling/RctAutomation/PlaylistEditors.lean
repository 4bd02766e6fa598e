import RctAutomation.PlaylistUpdate
import RctAutomation.Runs

/-!
# Two editors of a playlist

A request that updates a playlist by its ID fetches it, merges what it changes
into the list in memory, and replaces the stored one. Only the replacement is a
transaction. It writes the name and the weight of the list, whether the request
set them or fetched them, and adds the items of the list to those stored.

So two requests keep each other's items. Of the name and the weight, the one
that replaces last decides both (`editors_keep`).
-/

open Sql

/-! ## A playlist as a fetch shows it -/

/-- What a fetch shows of a playlist: its name, its weight, and its items as
a set. -/
structure PlaylistContent where
  name : Bytes
  weight : ℤ
  items : Set ℤ

namespace PlaylistContent

/-- The playlist a request asks for: its fields, where it sets them, and its
items besides the others. This is what the request is meant to do to the
playlist. -/
def edit (c : PlaylistContent) (request : PlaylistMergeRequest) : PlaylistContent where
  name := request.name.getD c.name
  weight := request.weight.getD c.weight
  items := c.items ∪ {i | i ∈ request.playableItemID}

/-- The playlist after a list replaces it: the fields of the list, and its
items besides those stored. This is what the store does. -/
def replacedBy (c x : PlaylistContent) : PlaylistContent := { x with items := c.items ∪ x.items }

/-- **A playlist carries what a request sets and adds.** It says nothing of
the fields that the request does not set. -/
structure Carries (c : PlaylistContent) (request : PlaylistMergeRequest) : Prop where
  name : ∀ b, request.name = some b → c.name = b
  weight : ∀ w, request.weight = some w → c.weight = w
  items : ∀ i ∈ request.playableItemID, i ∈ c.items

/-- The columns keep the name and the weight: what is stored of them is read
back as it was. -/
structure Kept (fp : FloatOps) (c : PlaylistContent) : Prop where
  name : TextKept fp c.name
  weight : FitsInt32 c.weight

variable {c x : PlaylistContent} {request : PlaylistMergeRequest}

/-- A list that a request was merged into carries it to the playlist. -/
theorem carries_replacedBy : (c.replacedBy (x.edit request)).Carries request := by
  refine ⟨fun b hb => ?_, fun w hw => ?_, fun i hi => Or.inr (Or.inr hi)⟩
  · show request.name.getD x.name = b
    rw [hb, Option.getD_some]
  · show request.weight.getD x.weight = w
    rw [hw, Option.getD_some]

/-- It keeps what the other request set before it fetched. -/
theorem carries_replacedBy_edit {other : PlaylistMergeRequest}
    (hname : request.name = none ∨ other.name = none)
    (hweight : request.weight = none ∨ other.weight = none) :
    ((c.edit other).replacedBy ((x.edit other).edit request)).Carries other := by
  refine ⟨fun b hb => ?_, fun w hw => ?_, fun i hi => Or.inl (Or.inr hi)⟩
  · have hno : request.name = none := hname.resolve_right (by rw [hb]; exact Option.some_ne_none b)
    show request.name.getD (other.name.getD x.name) = b
    rw [hno, hb]
    rfl
  · have hno : request.weight = none :=
      hweight.resolve_right (by rw [hw]; exact Option.some_ne_none w)
    show request.weight.getD (other.weight.getD x.weight) = w
    rw [hno, hw]
    rfl

theorem replacedBy_edit : c.replacedBy (c.edit request) = c.edit request := by
  show PlaylistContent.mk _ _ (c.items ∪ (c.items ∪ {i | i ∈ request.playableItemID})) = _
  rw [← Set.union_assoc, Set.union_self]
  rfl

theorem Kept.edit {fp : FloatOps} (h : c.Kept fp)
    (hname : ∀ b, request.name = some b → TextKept fp b)
    (hweight : ∀ w, request.weight = some w → FitsInt32 w) : (c.edit request).Kept fp := by
  constructor
  · show TextKept fp (request.name.getD c.name)
    cases hb : request.name with
    | none => exact h.name
    | some b => exact hname b hb
  · show FitsInt32 (request.weight.getD c.weight)
    cases hw : request.weight with
    | none => exact h.weight
    | some w => exact hweight w hw

end PlaylistContent

/-- **The playlist `p` of a database**, as a fetch shows it. Its columns may
hold other values than the content, as long as they are read as that. -/
structure PlaylistIs (fp : FloatOps) (db : Db) (p : ℤ) (c : PlaylistContent) : Prop where
  consistent : Consistent db
  row : ∃ name weight, HasRow db p name weight ∧ name.toText fp = c.name
    ∧ weight.toColumnInt = c.weight
  items : itemsOf db p = c.items

/-- The same in memory: the list that was fetched or merged carries the
content. -/
structure ListedAs (pl : Playlist) (p : ℤ) (c : PlaylistContent) : Prop where
  playlistID : pl.playlistID = some p
  name : pl.name = some c.name
  weight : pl.weight = some c.weight
  items : ∀ i, i ∈ pl.playableItemID ↔ i ∈ c.items

variable {fp : FloatOps} {db : Db} {p : ℤ} {c x : PlaylistContent}

/-- A playlist with items is fetched as it is. Without any the view does not
show it, and the request works on a list that is not the playlist's. -/
theorem PlaylistIs.lists_of_fetch (h : PlaylistIs fp db p c) (hp : FitsInt32 p)
    (hne : c.items.Nonempty)
    {ch : ℕ → Chance} {params : QueryParams} (hparams : ∀ a ∈ selectors, params a = none)
    {request : PlaylistMergeRequest} (hid : request.playlistID = some p) {pl : Playlist}
    (hfetch : updateTarget fp ch db params request = .ok (some (.own pl))) : ListedAs pl p c := by
  have htoInt : toInt32 p = p := toInt32_of_fits hp
  rcases loadById_withChildren fp (ch 1) h.consistent p with
    ⟨hempty, -⟩ | ⟨y, hy, ns, hyp, -, hns, hload⟩
  · rw [← h.items, hempty] at hne
    exact absurd hne Set.not_nonempty_empty
  · have hload' : Playlist.fetchById (catalog fp (ch 1)) db p
        = some (true, loadedPlaylist fp y ns) := by
      show Playlist.loadById _ _ _ _ (toInt32 p) = _
      rw [htoInt]
      exact hload
    rw [updateTarget_byId hparams hid hload'] at hfetch
    cases hfetch
    obtain ⟨name, weight, hrow, hname, hweight⟩ := h.row
    obtain ⟨rfl, rfl⟩ := (h.consistent.hasRow_iff_of_row hy hyp name weight).mp hrow
    refine ⟨?_, congrArg some hname, congrArg some hweight, fun i => ?_⟩
    · show some (y "PlaylistID").toColumnInt = _
      rw [hyp, Value.toColumnInt_integer, htoInt]
    · rw [← h.items]
      exact hns i

/-- A request is merged into a list. -/
theorem ListedAs.merged {pl : Playlist} (h : ListedAs pl p c) {params : QueryParams}
    (hparams : ∀ a ∈ selectors, params a = none) (request : PlaylistMergeRequest) :
    ListedAs (mergedList pl params request) p (c.edit request) := by
  rw [mergedList_eq, hparams "overwrite" (by decide)]
  refine ⟨h.playlistID, ?_, ?_, fun i => ?_⟩
  · show (request.name <|> pl.name) = some (request.name.getD c.name)
    rw [h.name]
    cases request.name <;> rfl
  · show (request.weight <|> pl.weight) = some (request.weight.getD c.weight)
    rw [h.weight]
    cases request.weight <;> rfl
  · show i ∈ pl.playableItemID ++ request.playableItemID ↔ _
    rw [List.mem_append, h.items]
    rfl

/-- **A list replaces the stored playlist.** It does not matter where the
list comes from: what was stored meanwhile is overwritten, apart from the
items. -/
theorem PlaylistIs.replaced (h : PlaylistIs fp db p c) (hp : FitsInt32 p) {m : Playlist}
    (hm : ListedAs m p x)
    (hkept : x.Kept fp) {busy : Bool} {reply : Reply}
    (hok : replyOf m (replaceList fp busy false db m).outcome = .ok reply) :
    PlaylistIs fp (replaceList fp busy false db m).conn.committed p (c.replacedBy x) := by
  obtain ⟨r, n, hr⟩ := replacedBy_of_reply h.consistent hok
  have hn : n = p := by rw [hr.key, hm.playlistID]; rfl
  have hname := hr.name
  have hweight := hr.weight
  rw [hm.name] at hname
  rw [hm.weight] at hweight
  refine ⟨hr.consistent, ⟨r "name", r "weight",
    (hr.rows p _ _).mpr (Or.inl ⟨hn.symm, rfl, rfl⟩), ?_, ?_⟩, ?_⟩
  · rw [hname]
    exact (toText_numeric_iff fp x.name).mpr hkept.name
  · rw [hweight]
    exact toInt32_of_fits hkept.weight
  · ext i
    rw [hr.items, hn, toInt32_of_fits hp, hm.items, h.items]
    exact or_congr_right ⟨fun hi => hi.2, fun hi => ⟨rfl, hi⟩⟩

/-! ## The requests -/

/-- A request to `/playlist/update`, with what its queries and its commit
meet. -/
structure EditCall where
  params : QueryParams
  request : PlaylistMergeRequest
  ch : ℕ → Chance
  busy : Bool

namespace EditCall

/-- The list the handler works on. -/
def target (call : EditCall) (fp : FloatOps) (db : Db) : Except Stop (Option Target) := do
  let update_request ← loadMessage call.params call.request
  updateTarget fp call.ch db call.params update_request

/-- The list with the request merged into it. -/
def merge (call : EditCall) (pl : Playlist) : Playlist := mergedList pl call.params call.request

/-- **A request by ID** that adds items and sets fields the columns keep. It
has none of the parameters that would name another list or clear this one. -/
structure ById (fp : FloatOps) (p : ℤ) (call : EditCall) : Prop where
  params : ∀ a ∈ selectors, call.params a = none
  playlistID : call.request.playlistID = some p
  name : ∀ b, call.request.name = some b → TextKept fp b
  weight : ∀ w, call.request.weight = some w → FitsInt32 w

theorem target_ok {call : EditCall} {o : Option Target} (h : call.target fp db = .ok o) :
    loadMessage call.params call.request = .ok call.request
      ∧ updateTarget fp call.ch db call.params call.request = .ok o := by
  unfold target at h
  cases hl : loadMessage call.params call.request with
  | error s =>
    rw [hl] at h
    cases h
  | ok req =>
    obtain rfl := loadMessage_eq hl
    rw [hl] at h
    exact ⟨rfl, h⟩

/-- **The three steps of a request are the handler**, when nothing comes in
between. So a run of the steps below is a run of two handlers, taken apart
where another request can come in. -/
theorem playlistUpdate_eq {call : EditCall} (lists : SharedList → Playlist) {pl : Playlist}
    {reply : Reply} (hfetch : call.target fp db = .ok (some (.own pl)))
    (hok : replyOf (call.merge pl) (replaceList fp call.busy false db (call.merge pl)).outcome
      = .ok reply) :
    playlistUpdate fp call.ch call.busy call.params call.request lists db
      = ⟨.ok reply, (replaceList fp call.busy false db (call.merge pl)).conn.committed, lists⟩ := by
  obtain ⟨hload, htarget⟩ := target_ok hfetch
  rw [playlistUpdate_own call.busy lists hload htarget, ← hok]
  rfl

end EditCall

/-- How far a request is, with the list it has: it has fetched the list, has
merged what it changes into it, or has replaced the stored one. -/
inductive EditPhase
  | idle
  | fetched (pl : Playlist)
  | merged (pl : Playlist)
  | replaced

/-- The request has replaced the list. -/
def EditPhase.isReplaced : EditPhase → Bool
  | .replaced => true
  | _ => false

theorem EditPhase.isReplaced_iff {q : EditPhase} : q.isReplaced = true ↔ q = .replaced := by
  cases q <;> simp [isReplaced]

/-- The database and two requests, each on a connection of its own. The lists
of the requests are in memory and not shared. -/
structure Editors where
  db : Db
  phase : Bool → EditPhase

/-- What a request does: it fetches its list, merges what it was sent into
that, and replaces the playlist by it. -/
inductive EditAct
  | fetch (e : Bool)
  | merge (e : Bool)
  | replace (e : Bool)
  deriving DecidableEq

namespace Editors

/-- **One step of a request that succeeds.** The two requests take turns in
any order, since nothing keeps one from fetching what the other is about to
replace. -/
inductive Step (fp : FloatOps) (call : Bool → EditCall) : Editors → EditAct → Editors → Prop
  | fetch {s : Editors} {e : Bool} {pl : Playlist} (he : s.phase e = .idle)
      (hfetch : (call e).target fp s.db = .ok (some (.own pl))) :
      Step fp call s (.fetch e) { s with phase := Function.update s.phase e (.fetched pl) }
  | merge {s : Editors} {e : Bool} {pl : Playlist} (he : s.phase e = .fetched pl) :
      Step fp call s (.merge e)
        { s with phase := Function.update s.phase e (.merged ((call e).merge pl)) }
  | replace {s : Editors} {e : Bool} {m : Playlist} {reply : Reply} (he : s.phase e = .merged m)
      (hok : replyOf m (replaceList fp (call e).busy false s.db m).outcome = .ok reply) :
      Step fp call s (.replace e)
        ⟨(replaceList fp (call e).busy false s.db m).conn.committed,
          Function.update s.phase e .replaced⟩

/-- Has a request replaced the playlist? -/
def done (s : Editors) (e : Bool) : Bool := (s.phase e).isReplaced

/-- What a request that fetches finds of the playlist: what was there at
first, or what the other request has made of it if that one is done. -/
def seen (call : Bool → EditCall) (c : PlaylistContent) (s : Editors) (e : Bool) :
    PlaylistContent :=
  if s.done (!e) then c.edit (call (!e)).request else c

/-- A request has fetched the playlist as `x`, at some step of the run; and
if the other request was done by then, it still is. -/
def Knows (call : Bool → EditCall) (c : PlaylistContent) (trace : List (Editors × EditAct))
    (s : Editors) (e : Bool) (x : PlaylistContent) : Prop :=
  ∃ t, (t, .fetch e) ∈ trace ∧ x = t.seen call c e ∧ (t.done (!e) = true → s.done (!e) = true)

/-- A request that is so far has the list as it fetched it, and has edited it
once it has merged. -/
def Held (p : ℤ) (call : Bool → EditCall) (c : PlaylistContent) (trace : List (Editors × EditAct))
    (s : Editors) (e : Bool) : EditPhase → Prop
  | .fetched pl => ∃ x, Knows call c trace s e x ∧ ListedAs pl p x
  | .merged m => ∃ x, Knows call c trace s e x ∧ ListedAs m p (x.edit (call e).request)
  | _ => True

/-- The request that replaced the playlist last, and the playlist after it:
what the other one has stored, replaced by what this one has fetched and
edited. -/
def Last (fp : FloatOps) (p : ℤ) (call : Bool → EditCall) (c : PlaylistContent)
    (trace : List (Editors × EditAct)) (s : Editors) (e : Bool) : Prop :=
  ∃ t r, (t, .fetch e) ∈ trace ∧ (r, .replace e) ∈ trace ∧ r.done (!e) = true ∧ PlaylistIs fp s.db p
    ((c.edit (call (!e)).request).replacedBy ((t.seen call c e).edit (call e).request))

/-- **What every run keeps**: a request that is not done finds the playlist
as `seen` says, and one of two that are done was the last. The three clauses
are about a request that holds a list, one that has still to fetch, and the
end. -/
structure Follows (fp : FloatOps) (p : ℤ) (call : Bool → EditCall) (c : PlaylistContent)
    (trace : List (Editors × EditAct)) (s : Editors) : Prop where
  held : ∀ e, Held p call c trace s e (s.phase e)
  now : ∀ e, s.done e = false → PlaylistIs fp s.db p (s.seen call c e)
  last : (∀ e, s.done e = true) → ∃ e, Last fp p call c trace s e

variable {call : Bool → EditCall} {trace : List (Editors × EditAct)} {s s' : Editors} {e : Bool}

/-- A request that comes as far as another phase is done if that is the end. -/
theorem isReplaced_update (q : EditPhase) (f : Bool) :
    (Function.update s.phase e q f).isReplaced = if f = e then q.isReplaced else s.done f := by
  rw [Function.update_apply, apply_ite EditPhase.isReplaced]
  rfl

theorem done_replace (db : Db) (f : Bool) :
    done ⟨db, Function.update s.phase e .replaced⟩ f = if f = e then true else s.done f :=
  isReplaced_update .replaced f

/-- Before the end, the same requests are done. -/
theorem done_update {q : EditPhase} (he : s.done e = false) (hq : q.isReplaced = false) :
    done { s with phase := Function.update s.phase e q } = s.done := by
  funext f
  show (Function.update s.phase e q f).isReplaced = s.done f
  rw [isReplaced_update]
  split
  · rename_i hf
    rw [hq, hf, he]
  · rfl

/-- A step of a run leaves those done that are. -/
theorem Step.done {a : EditAct} (h : Step fp call s a s') {f : Bool} (hf : s.done f = true) :
    s'.done f = true := by
  cases h with
  | fetch he | merge he =>
    rw [done_update (by unfold Editors.done; rw [he]; rfl) rfl]
    exact hf
  | replace he =>
    rw [done_replace]
    split
    · rfl
    · exact hf

/-- What a request has fetched stays so. -/
theorem Held.mono {q : EditPhase} (h : Held p call c trace s e q) {a : EditAct}
    (hdone : s.done (!e) = true → s'.done (!e) = true) :
    Held p call c (trace ++ [(s, a)]) s' e q := by
  have hknows : ∀ x, Knows call c trace s e x → Knows call c (trace ++ [(s, a)]) s' e x := by
    rintro x ⟨t, ht, hx, hle⟩
    exact ⟨t, List.mem_append_left _ ht, hx, fun h => hdone (hle h)⟩
  cases q with
  | idle | replaced => trivial
  | fetched pl | merged m =>
    obtain ⟨x, hx, hlists⟩ := h
    exact ⟨x, hknows x hx, hlists⟩

/-- The list of a request that comes as far as `q`, and those of the other. -/
theorem Follows.held_update (h : Follows fp p call c trace s) {a : EditAct} {q : EditPhase}
    (hphase : s'.phase = Function.update s.phase e q)
    (hdone : ∀ f, s.done f = true → s'.done f = true)
    (hq : Held p call c (trace ++ [(s, a)]) s' e q) (f : Bool) :
    Held p call c (trace ++ [(s, a)]) s' f (s'.phase f) := by
  rw [hphase]
  exact (Function.forall_update_iff s.phase (Held p call c (trace ++ [(s, a)]) s')).mpr
    ⟨hq, fun f _ => (h.held f).mono (hdone (!f))⟩ f

/-- What the requests find can be fetched. -/
theorem seen_nonempty (hne : c.items.Nonempty) (s : Editors) (e : Bool) :
    (s.seen call c e).items.Nonempty := by
  unfold seen
  split
  · exact hne.mono Set.subset_union_left
  · exact hne

/-- And the columns keep it. -/
theorem seen_kept (hcall : ∀ e, (call e).ById fp p) (hkept : c.Kept fp) (s : Editors) (e : Bool) :
    (s.seen call c e).Kept fp := by
  unfold seen
  split
  · exact hkept.edit (hcall (!e)).name (hcall (!e)).weight
  · exact hkept

/-- A fetch or a merge keeps it: the database is the same, and so are those
who are done. -/
theorem Follows.waiting (h : Follows fp p call c trace s) {a : EditAct} {q : EditPhase}
    (he : s.done e = false) (hq : q.isReplaced = false)
    (hheld : Held p call c (trace ++ [(s, a)])
      { s with phase := Function.update s.phase e q } e q) :
    Follows fp p call c (trace ++ [(s, a)]) { s with phase := Function.update s.phase e q } := by
  have hdone := done_update (s := s) he hq
  refine ⟨h.held_update rfl (fun f hf => ?_) hheld, fun f hf => ?_, fun hall => ?_⟩
  · rw [hdone]
    exact hf
  · unfold seen
    rw [hdone] at hf ⊢
    exact h.now f hf
  · rw [hdone] at hall
    rw [hall e] at he
    cases he

/-- A replacement keeps it: the other request was done, and this one is the
last, or it is not, and finds what this one wrote.

The cases are whether the other one has replaced by now, and whether it had
when this one fetched. If it came in between, its items stay and its fields
are those that are written over. -/
theorem Follows.replaced (hcall : ∀ e, (call e).ById fp p) (hp : FitsInt32 p) (hkept : c.Kept fp)
    (h : Follows fp p call c trace s) {m : Playlist} {reply : Reply} (he : s.phase e = .merged m)
    (hok : replyOf m (replaceList fp (call e).busy false s.db m).outcome = .ok reply) :
    Follows fp p call c (trace ++ [(s, .replace e)])
      ⟨(replaceList fp (call e).busy false s.db m).conn.committed,
        Function.update s.phase e .replaced⟩ := by
  have hnot : s.done e = false := by unfold done; rw [he]; rfl
  have hheld := h.held e
  rw [he] at hheld
  obtain ⟨x, ⟨t, ht, hx, hle⟩, hlists⟩ := hheld
  have hx' : x.Kept fp := by
    rw [hx]
    exact seen_kept hcall hkept t e
  have his := (h.now e hnot).replaced hp hlists
    (hx'.edit (hcall e).name (hcall e).weight) hok
  refine ⟨h.held_update rfl (fun f hf => ?_) trivial, fun f hf => ?_, fun hall => ?_⟩
  · rw [done_replace]
    split
    · rfl
    · exact hf
  · -- the other request is not done, so neither of them was
    rw [done_replace] at hf
    split at hf
    · cases hf
    · rename_i hfe
      obtain rfl : f = !e := by cases f <;> cases e <;> trivial
      have hsnow : s.seen call c e = c := if_neg (by rw [hf]; exact Bool.false_ne_true)
      have hxc : x = c := by
        rw [hx]
        refine if_neg (fun ht => ?_)
        rw [hle ht] at hf
        cases hf
      rw [hsnow, hxc, PlaylistContent.replacedBy_edit] at his
      show PlaylistIs fp _ p (if done _ (!!e) then c.edit (call (!!e)).request else c)
      rw [Bool.not_not, if_pos (by rw [done_replace, if_pos rfl])]
      exact his
  · -- the other request was done
    have hother : s.done (!e) = true := by
      have hd := hall (!e)
      rw [done_replace, if_neg (by cases e <;> decide)] at hd
      exact hd
    have hsnow : s.seen call c e = c.edit (call (!e)).request := if_pos hother
    rw [hsnow, hx] at his
    exact ⟨e, t, s, List.mem_append_left _ ht,
      List.mem_append_right _ (List.mem_singleton_self _), hother, his⟩

/-- **A step keeps it.** Fetching finds the playlist as `seen` says, merging
edits what was fetched, and replacing makes the request either the first or
the last one. -/
theorem Follows.step (hcall : ∀ e, (call e).ById fp p) (hp : FitsInt32 p) (hkept : c.Kept fp)
    (hne : c.items.Nonempty) (h : Follows fp p call c trace s) {a : EditAct}
    (hstep : Step fp call s a s') : Follows fp p call c (trace ++ [(s, a)]) s' := by
  cases hstep with
  | @fetch e pl he hfetch =>
    -- what it finds is what `now` says of a request that is not done
    have hnot : s.done e = false := by unfold done; rw [he]; rfl
    refine h.waiting hnot rfl ⟨s.seen call c e,
      ⟨s, List.mem_append_right _ (List.mem_singleton_self _), rfl, fun hd => ?_⟩, ?_⟩
    · rw [done_update hnot rfl]
      exact hd
    · exact (h.now e hnot).lists_of_fetch hp (seen_nonempty hne s e) (hcall e).params
        (hcall e).playlistID (EditCall.target_ok hfetch).2
  | @merge e pl he =>
    have hnot : s.done e = false := by unfold done; rw [he]; rfl
    have hheld := h.held e
    rw [he] at hheld
    obtain ⟨x, ⟨t, ht, hx, hle⟩, hlists⟩ := hheld
    refine h.waiting hnot rfl ⟨x, ⟨t, List.mem_append_left _ ht, hx, fun hd => ?_⟩,
      hlists.merged (hcall e).params _⟩
    rw [done_update hnot rfl]
    exact hle hd
  | replace he hok => exact h.replaced hcall hp hkept he hok

/-- **And so does every run** from a playlist with items. -/
theorem follows_of_run (hcall : ∀ e, (call e).ById fp p) (hp : FitsInt32 p) (hkept : c.Kept fp)
    (hne : c.items.Nonempty) (h₀ : PlaylistIs fp db p c)
    (hrun : Transitions.Run (Step fp call) ⟨db, fun _ => .idle⟩ trace s) :
    Follows fp p call c trace s := by
  induction hrun with
  | nil =>
    exact ⟨fun _ => trivial, fun _ _ => h₀, fun hall => absurd (hall true) Bool.false_ne_true⟩
  | snoc hrun hstep ih => exact ih.step hcall hp hkept hne hstep

/-- The items of both requests are left by the one that replaces last. -/
theorem mem_items_last (call : Bool → EditCall) (c : PlaylistContent) (t : Editors) (e : Bool)
    (i : ℤ) :
    i ∈ ((c.edit (call (!e)).request).replacedBy ((t.seen call c e).edit (call e).request)).items
      ↔ i ∈ c.items ∨ ∃ e, i ∈ (call e).request.playableItemID := by
  have hseen : i ∈ (t.seen call c e).items →
      i ∈ c.items ∨ i ∈ (call (!e)).request.playableItemID := by
    unfold seen
    split
    · exact id
    · exact Or.inl
  rw [Bool.exists_bool' e]
  constructor
  · rintro ((hi | hi) | (hi | hi))
    · exact Or.inl hi
    · exact Or.inr (Or.inr hi)
    · exact (hseen hi).imp_right Or.inr
    · exact Or.inr (Or.inl hi)
  · rintro (hi | hi | hi)
    · exact Or.inl (Or.inl hi)
    · exact Or.inr (Or.inr hi)
    · exact Or.inl (Or.inr hi)

/-- **What two requests leave of a playlist**, in every order of their steps:
the items of both. The one that replaces last carries its fields, and those
of the other if that one was done when it fetched; if not, the fields it does
not set are back at what they were before. -/
theorem editors_keep (fp : FloatOps) (p : ℤ) (hp : FitsInt32 p) (call : Bool → EditCall)
    (hcall : ∀ e, (call e).ById fp p)
    (hname : ∃ e, (call e).request.name = none) (hweight : ∃ e, (call e).request.weight = none)
    {c : PlaylistContent} (h₀ : PlaylistIs fp db p c) (hkept : TextKept fp c.name)
    (hne : c.items.Nonempty)
    (hrun : Transitions.Run (Step fp call) ⟨db, fun _ => .idle⟩ trace s)
    (hdone : ∀ e, s.phase e = .replaced) :
    ∃ c', PlaylistIs fp s.db p c'
      ∧ (∀ i, i ∈ c'.items ↔ i ∈ c.items ∨ ∃ e, i ∈ (call e).request.playableItemID)
      ∧ ∃ e t r, (t, .fetch e) ∈ trace ∧ (r, .replace e) ∈ trace ∧ r.phase (!e) = .replaced
        ∧ c'.Carries (call e).request
        ∧ (t.phase (!e) = .replaced → c'.Carries (call (!e)).request)
        ∧ (t.phase (!e) ≠ .replaced →
          ((call e).request.name = none → c'.name = c.name)
          ∧ ((call e).request.weight = none → c'.weight = c.weight)) := by
  obtain ⟨name, weight, -, -, hw⟩ := h₀.row
  have hkept' : c.Kept fp := ⟨hkept, by rw [← hw]; exact fitsInt32_toInt32 _⟩
  have hall : ∀ e, s.done e = true := fun e => EditPhase.isReplaced_iff.mpr (hdone e)
  -- `e` replaced last, from what it fetched in `t`
  obtain ⟨e, t, r, ht, hr, hother, his⟩ :=
    (follows_of_run hcall hp hkept' hne h₀ hrun).last hall
  refine ⟨_, his, mem_items_last call c t e, e, t, r, ht, hr, EditPhase.isReplaced_iff.mp hother,
    PlaylistContent.carries_replacedBy, fun htd => ?_, fun htd => ?_⟩
  · have hseen : t.seen call c e = c.edit (call (!e)).request :=
      if_pos (EditPhase.isReplaced_iff.mpr htd)
    rw [hseen]
    exact PlaylistContent.carries_replacedBy_edit ((Bool.exists_bool' e).mp hname)
      ((Bool.exists_bool' e).mp hweight)
  · have hseen : t.seen call c e = c := if_neg (fun hd => htd (EditPhase.isReplaced_iff.mp hd))
    rw [hseen]
    refine ⟨fun hno => ?_, fun hno => ?_⟩
    · show (call e).request.name.getD c.name = c.name
      rw [hno, Option.getD_none]
    · show (call e).request.weight.getD c.weight = c.weight
      rw [hno, Option.getD_none]

/-- A playlist with one of three items. -/
def morningDb : Db :=
  databaseOf [.item { filename := some (ascii "a.ogg") },
    .item { filename := some (ascii "b.ogg") },
    .item { filename := some (ascii "c.ogg") },
    .playlist { name := some (ascii "morning"), weight := some 1, playableItemID := [1] }]

/-- One request sets its name, another one its weight, and each adds an item. -/
def twoEdits (e : Bool) : EditCall where
  params := noParams
  request := if e then { playlistID := some 1, weight := some 5, playableItemID := [3] }
    else { playlistID := some 1, name := some (ascii "dawn"), playableItemID := [2] }
  ch _ := .stored
  busy := false

/-- Both fetch before either of them replaces. -/
theorem overlapping_run : ∃ trace s,
    Transitions.Run (Step .whole twoEdits) ⟨morningDb, fun _ => .idle⟩ trace s
      ∧ (∀ e, s.phase e = .replaced)
      ∧ HasRow s.db 1 (.text (ascii "morning")) (.integer 5) := by
  have hrun : Transitions.Run (Step .whole twoEdits) ⟨morningDb, fun _ => .idle⟩ _ _ :=
    .snoc (.snoc (.snoc (.snoc (.snoc (.snoc .nil (.fetch (e := false) rfl rfl))
      (.fetch (e := true) rfl rfl)) (.merge (e := false) rfl)) (.merge (e := true) rfl))
      (.replace (e := false) rfl rfl)) (.replace (e := true) rfl rfl)
  exact ⟨_, _, hrun, fun e => by cases e <;> rfl, by decide +kernel⟩

/-- Two requests of which each adds an item: both items are there, with the
one there was. -/
theorem editors_keep_morning : ∃ trace s,
    Transitions.Run (Step .whole twoEdits) ⟨morningDb, fun _ => .idle⟩ trace s
      ∧ 1 ∈ itemsOf s.db 1 ∧ 2 ∈ itemsOf s.db 1 ∧ 3 ∈ itemsOf s.db 1 := by
  obtain ⟨trace, s, hrun, hdone, -⟩ := overlapping_run
  have hcall : ∀ e, (twoEdits e).ById .whole 1 := by
    intro e
    cases e with
    | false => exact ⟨fun _ _ => rfl, rfl, fun b hb => by cases hb; decide, fun w hw => by cases hw⟩
    | true =>
      exact ⟨fun _ _ => rfl, rfl, fun b hb => (by cases hb), fun w hw => by cases hw; decide⟩
  have his : PlaylistIs .whole morningDb 1 ⟨ascii "morning", 1, itemsOf morningDb 1⟩ :=
    ⟨consistent_of_isConsistent (by decide +kernel),
      ⟨.text (ascii "morning"), .integer 1, by decide +kernel, rfl, rfl⟩, rfl⟩
  have hone : 1 ∈ itemsOf morningDb 1 := by decide +kernel
  obtain ⟨c', hc', hitems, -⟩ := editors_keep .whole 1 (by decide) twoEdits hcall ⟨true, rfl⟩
    ⟨false, rfl⟩ his (by decide) ⟨1, hone⟩ hrun hdone
  refine ⟨trace, s, hrun, ?_, ?_, ?_⟩
  · rw [hc'.items, hitems]
    exact Or.inl hone
  · rw [hc'.items, hitems]
    exact Or.inr ⟨false, List.mem_singleton_self _⟩
  · rw [hc'.items, hitems]
    exact Or.inr ⟨true, List.mem_singleton_self _⟩

/-- **A lost update**: the name that one of them set is gone. Both fetch
before one of them replaces, so the last one writes back the name that it has
fetched. -/
theorem editors_lose : Consistent morningDb
    ∧ HasRow morningDb 1 (.text (ascii "morning")) (.integer 1) ∧ (itemsOf morningDb 1).Nonempty
    ∧ (twoEdits false).request.name = some (ascii "dawn") ∧ (twoEdits true).request.name = none
    ∧ ∃ trace s, Transitions.Run (Step .whole twoEdits) ⟨morningDb, fun _ => .idle⟩ trace s
      ∧ (∀ e, s.phase e = .replaced)
      ∧ HasRow s.db 1 (.text (ascii "morning")) (.integer 5)
      ∧ ¬∃ c', PlaylistIs .whole s.db 1 c' ∧ ∀ e, c'.Carries (twoEdits e).request := by
  obtain ⟨trace, s, hrun, hdone, hrow⟩ := overlapping_run
  refine ⟨consistent_of_isConsistent (by decide +kernel), by decide +kernel,
    ⟨1, by decide +kernel⟩, rfl, rfl, trace, s, hrun, hdone, hrow, ?_⟩
  rintro ⟨c', hc', hcarries⟩
  obtain ⟨x, hx, hxp, hxname, -⟩ := hrow
  obtain ⟨name, weight, hrow', hname, -⟩ := hc'.row
  obtain ⟨rfl, -⟩ := (hc'.consistent.hasRow_iff_of_row hx hxp name weight).mp hrow'
  rw [hxname, (hcarries false).name (ascii "dawn") rfl] at hname
  exact absurd hname (by decide)

end Editors
