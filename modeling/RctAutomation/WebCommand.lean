import RctAutomation.Runs
import RctAutomation.WebApi

/-!
# The requests of one command

A `WebCommand` is registered once and serves all requests for its resources,
on all threads of the server. Before it calls its handler it puts the request
into members of its own: the parameters, the request, the writer of the
response, and the user, if the client presents a certificate. The handler,
`LoadMessage`, `ArgumentOrDefault` and `ReturnMessage` read these members.

So a request can meet what another one left there. `served_own_data` says when
it does not: requests follow one another, and one without a certificate comes
while no user is left from before.
-/

open Sql Transitions

/-- A request: its resource and its body, as far as handlers look at it. -/
structure HTTPRequest where
  resource : Bytes
  content : Bytes
  deriving DecidableEq

/-- What a server thread hands to a command: the parameters of the query, the
request, the writer of the response, and the subject of the certificate that
the client presents. -/
structure Incoming (W : Type) where
  params : QueryParams
  request : HTTPRequest
  writer : W
  subject : Option Bytes

/-- The members of a command. There is one set of them for all requests that
it serves, and no mutex. -/
structure Members (W : Type) where
  params_ : QueryParams
  request_ : HTTPRequest
  writer_ : W
  remote_user_ : Bytes

/-- The members by name. -/
inductive Member
  | params_ | request_ | writer_ | remote_user_
  deriving DecidableEq

/-- The members as a request should find them: without a certificate the user
is empty. -/
def Incoming.own {W : Type} (x : Incoming W) : Members W :=
  ⟨x.params, x.request, x.writer, x.subject.getD []⟩

/-- One member is the same, whatever the others are. A handler that only uses
this one cannot tell the difference. -/
def Members.Agree {W : Type} (m m' : Members W) : Member → Prop
  | .params_ => m.params_ = m'.params_
  | .request_ => m.request_ = m'.request_
  | .writer_ => m.writer_ = m'.writer_
  | .remote_user_ => m.remote_user_ = m'.remote_user_

/-- How far a request is: which members it has assigned, and whether its
handler has returned. The members are assigned in the order of
`handle_command`. -/
inductive Stage
  | waiting | params | request | writer | handling | finished
  deriving DecidableEq

/-- The request is under way. -/
def Stage.UnderWay (g : Stage) : Prop := g ≠ .waiting ∧ g ≠ .finished

/-- A command and the requests it serves. -/
structure WebCommand (ι W : Type) where
  members : Members W
  stage : ι → Stage

/-- What a thread does for a request: it assigns a member, the handler or one
of the functions it calls uses one, or the handler returns. -/
inductive CommandAct (ι : Type)
  | assign (i : ι) (m : Member)
  | use (i : ι) (m : Member)
  | finish (i : ι)

namespace WebCommand

variable {ι W : Type} [DecidableEq ι]

/-- The command with a request at another stage. -/
def moveTo (s : WebCommand ι W) (i : ι) (g : Stage) (members : Members W) : WebCommand ι W :=
  ⟨members, Function.update s.stage i g⟩

/-- **The next step of a request**, in the order of `handle_command`. Without
a certificate the user is not assigned, so it stays what a request before has
left. -/
def next (q : ι → Incoming W) (s : WebCommand ι W) : CommandAct ι → Option (WebCommand ι W)
  | .assign i .params_ =>
    if s.stage i = .waiting then
      some (s.moveTo i .params { s.members with params_ := (q i).params })
    else none
  | .assign i .request_ =>
    if s.stage i = .params then
      some (s.moveTo i .request { s.members with request_ := (q i).request })
    else none
  | .assign i .writer_ =>
    if s.stage i = .request then
      some (s.moveTo i .writer { s.members with writer_ := (q i).writer })
    else none
  | .assign i .remote_user_ =>
    -- what is left of an earlier request stays without a certificate
    if s.stage i = .writer then
      some (s.moveTo i .handling
        { s.members with remote_user_ := (q i).subject.getD s.members.remote_user_ })
    else none
  | .use i _ => if s.stage i = .handling then some s else none
  | .finish i => if s.stage i = .handling then some (s.moveTo i .finished s.members) else none

/-- What can happen leads to the command after it. -/
def Step (q : ι → Incoming W) (s : WebCommand ι W) (a : CommandAct ι) (s' : WebCommand ι W) :
    Prop := s.next q a = some s'

/-- A use finds the request's own data. The other actions look at no member. -/
def Own (q : ι → Incoming W) (s : WebCommand ι W) : CommandAct ι → Prop
  | .use i m => s.members.Agree (q i).own m
  | _ => True

/-- **A request begins by itself**: while no other one is under way, and,
without a certificate, while no user is left. It is a condition on the first
step of a request only; the steps of others that follow are not restricted,
except that they may not begin before this one is done. -/
def BeginsAlone (q : ι → Incoming W) (s : WebCommand ι W) : CommandAct ι → Prop
  | .assign i .params_ => (∀ j, j ≠ i → ¬(s.stage j).UnderWay)
      ∧ ((q i).subject = none → s.members.remote_user_ = [])
  | _ => True

instance [Fintype ι] (q : ι → Incoming W) (s : WebCommand ι W) (a : CommandAct ι) :
    Decidable (s.BeginsAlone q a) :=
  match a with
  | .assign i .params_ => inferInstanceAs (Decidable
      ((∀ j, j ≠ i → ¬(s.stage j ≠ .waiting ∧ s.stage j ≠ .finished))
        ∧ ((q i).subject = none → s.members.remote_user_ = [])))
  | .assign _ .request_ | .assign _ .writer_ | .assign _ .remote_user_ | .use _ _ | .finish _ =>
    isTrue trivial

/-! ## What requests that begin alone keep -/

/-- The members that a request has assigned are its own, and the user is
empty until a certificate says otherwise. There is one case for each stage. -/
def Holds (q : ι → Incoming W) (m : Members W) (i : ι) : Stage → Prop
  | .waiting | .finished => True
  | .params => m.params_ = (q i).params ∧ ((q i).subject = none → m.remote_user_ = [])
  | .request => m.params_ = (q i).params ∧ m.request_ = (q i).request
      ∧ ((q i).subject = none → m.remote_user_ = [])
  | .writer => m.params_ = (q i).params ∧ m.request_ = (q i).request ∧ m.writer_ = (q i).writer
      ∧ ((q i).subject = none → m.remote_user_ = [])
  | .handling => m = (q i).own

/-- **Requests are served one by one**, and each holds the members it has
assigned. This is what steps of requests that begin alone keep. -/
structure OneByOne (q : ι → Incoming W) (s : WebCommand ι W) : Prop where
  alone : ∀ i j, i ≠ j → (s.stage i).UnderWay → ¬(s.stage j).UnderWay
  holds : ∀ i, Holds q s.members i (s.stage i)

/-- One request goes on while the others wait or are finished. -/
theorem OneByOne.moveTo {q : ι → Incoming W} {s : WebCommand ι W} {i : ι} {g : Stage}
    {members : Members W} (hothers : ∀ j, j ≠ i → ¬(s.stage j).UnderWay)
    (hi : Holds q members i g) : OneByOne q (s.moveTo i g members) where
  alone j k hjk hj hk := by
    change (Function.update s.stage i g j).UnderWay at hj
    change (Function.update s.stage i g k).UnderWay at hk
    by_cases hji : j = i
    · rw [Function.update_of_ne (fun h => hjk (hji.trans h.symm))] at hk
      exact hothers k (fun h => hjk (hji.trans h.symm)) hk
    · rw [Function.update_of_ne hji] at hj
      exact hothers j hji hj
  holds j := by
    refine (Function.forall_update_iff s.stage (Holds q members)).mpr ⟨hi, fun j hji => ?_⟩ j
    have hidle := hothers j hji
    cases hstage : s.stage j with
    | waiting | finished => trivial
    | _ => exact absurd (by rw [hstage]; exact ⟨nofun, nofun⟩) hidle

omit [DecidableEq ι] in
/-- The others wait for a request that is under way. -/
theorem OneByOne.others {q : ι → Incoming W} {s : WebCommand ι W} (h : OneByOne q s) {i : ι}
    {g : Stage} (hi : s.stage i = g) (hg : g ≠ .waiting ∧ g ≠ .finished) :
    ∀ j, j ≠ i → ¬(s.stage j).UnderWay :=
  fun j hj => h.alone i j hj.symm (by rw [hi]; exact hg)

/-- A step keeps this, if requests begin alone: a request that begins finds
nobody under way, and the steps of the one that is set the members to its own
data. -/
theorem OneByOne.step {q : ι → Incoming W} {s s' : WebCommand ι W} {a : CommandAct ι}
    (h : OneByOne q s) (halone : s.BeginsAlone q a) (hstep : Step q s a s') : OneByOne q s' := by
  have hstage : ∀ (i : ι) (g : Stage), s.stage i = g → Holds q s.members i g :=
    fun i g hg => hg ▸ h.holds i
  unfold Step next at hstep
  cases a with
  | assign i m =>
    cases m with
    | params_ =>
      obtain ⟨hi, hs'⟩ := Option.ite_none_right_eq_some.mp hstep
      obtain rfl := Option.some.inj hs'
      exact OneByOne.moveTo halone.1 ⟨rfl, halone.2⟩
    | request_ =>
      obtain ⟨hi, hs'⟩ := Option.ite_none_right_eq_some.mp hstep
      obtain rfl := Option.some.inj hs'
      obtain ⟨hparams, huser⟩ := hstage i _ hi
      exact OneByOne.moveTo (h.others hi ⟨nofun, nofun⟩) ⟨hparams, rfl, huser⟩
    | writer_ =>
      obtain ⟨hi, hs'⟩ := Option.ite_none_right_eq_some.mp hstep
      obtain rfl := Option.some.inj hs'
      obtain ⟨hparams, hrequest, huser⟩ := hstage i _ hi
      exact OneByOne.moveTo (h.others hi ⟨nofun, nofun⟩) ⟨hparams, hrequest, rfl, huser⟩
    | remote_user_ =>
      obtain ⟨hi, hs'⟩ := Option.ite_none_right_eq_some.mp hstep
      obtain rfl := Option.some.inj hs'
      obtain ⟨hparams, hrequest, hwriter, huser⟩ := hstage i _ hi
      refine OneByOne.moveTo (h.others hi ⟨nofun, nofun⟩) ?_
      show (⟨s.members.params_, s.members.request_, s.members.writer_,
        (q i).subject.getD s.members.remote_user_⟩ : Members W)
          = ⟨(q i).params, (q i).request, (q i).writer, (q i).subject.getD []⟩
      rw [hparams, hrequest, hwriter]
      cases hsubject : (q i).subject with
      | none => rw [huser hsubject]
      | some user => rfl
  | use i m =>
    obtain ⟨-, hs'⟩ := Option.ite_none_right_eq_some.mp hstep
    obtain rfl := Option.some.inj hs'
    exact h
  | finish i =>
    obtain ⟨hi, hs'⟩ := Option.ite_none_right_eq_some.mp hstep
    obtain rfl := Option.some.inj hs'
    exact OneByOne.moveTo (h.others hi ⟨nofun, nofun⟩) trivial

/-- A use finds what the request holds. -/
theorem OneByOne.own {q : ι → Incoming W} {s s' : WebCommand ι W} {a : CommandAct ι}
    (h : OneByOne q s) (hstep : Step q s a s') : s.Own q a := by
  cases a with
  | use i m =>
    obtain ⟨hi, -⟩ := Option.ite_none_right_eq_some.mp hstep
    have hown : s.members = (q i).own := by
      have := h.holds i
      rwa [hi] at this
    show s.members.Agree (q i).own m
    rw [hown]
    cases m <;> rfl
  | assign i m => trivial
  | finish i => trivial

/-- **In every run in which requests begin alone, each finds its own data**,
however many there are, and whichever members their handlers use, in any
order.

The handler of a path is one object, and its members are set anew by each
request that has something to set. That requests begin alone is what the
server does not see to: its threads call the handler whenever a request
comes. -/
theorem served_own_data (q : ι → Incoming W) {s₀ s : WebCommand ι W}
    (h₀ : ∀ i, s₀.stage i = .waiting) {trace : List (WebCommand ι W × CommandAct ι)}
    (hrun : Run (Step q) s₀ trace s) (halone : ∀ x ∈ trace, x.1.BeginsAlone q x.2) :
    ∀ x ∈ trace, x.1.Own q x.2 := by
  have hstart : OneByOne q s₀ := by
    refine ⟨fun i j _ hi => absurd (h₀ i) hi.1, fun i => ?_⟩
    rw [h₀ i]
    trivial
  have hinv := (hrun.invariant (OneByOne q) (fun s a => s.BeginsAlone q a) hstart
    (fun _ _ _ h ha hstep => h.step ha hstep) halone).2
  intro x hx
  obtain ⟨s', hstep⟩ := hrun.step_of_mem hx
  exact (hinv x hx).own hstep

/-! ## Requests that meet -/

/-- A request for a requirement to be run, whose response goes to a writer. -/
def runonceRequest (writer : ℕ) (subject : Option Bytes) : Incoming ℕ :=
  ⟨noParams, ⟨ascii "/requirements/runonce", []⟩, writer, subject⟩

/-- Two such requests. -/
def twoRequests (subject : Option Bytes) (i : Bool) : Incoming ℕ :=
  if i then runonceRequest 1 none else runonceRequest 0 subject

/-- The command before it serves anything. -/
def registered : WebCommand Bool ℕ := ⟨⟨noParams, ⟨[], []⟩, 0, []⟩, fun _ => .waiting⟩

/-- A request up to its handler. -/
def upToHandler (i : Bool) : List (CommandAct Bool) :=
  [.assign i .params_, .assign i .request_, .assign i .writer_, .assign i .remote_user_]

/-- A request that is served to its end: its handler looks at the user, the parameters and
the request, and writes its response. -/
def served (i : Bool) : List (CommandAct Bool) :=
  upToHandler i ++ [.use i .remote_user_, .use i .params_, .use i .request_, .use i .writer_,
    .finish i]

/-- **Two requests in turn**, the first of them without a certificate: each
is served with its own data. The user of the second one is there in the end,
because it has set it. -/
theorem served_own_data_in_turn :
    ∃ trace, ∃ s : WebCommand Bool ℕ,
      Run (Step (twoRequests (some (ascii "/CN=alice")))) registered trace s
      ∧ trace.map Prod.snd = served true ++ served false
      ∧ s.stage true = .finished ∧ s.stage false = .finished
      ∧ s.members.remote_user_ = ascii "/CN=alice"
      ∧ ∀ x ∈ trace, x.1.Own (twoRequests (some (ascii "/CN=alice"))) x.2 := by
  obtain ⟨s, hs⟩ : ∃ s, (served true ++ served false).foldlM
      (fun s a => if BeginsAlone (twoRequests (some (ascii "/CN=alice"))) s a then
        next (twoRequests (some (ascii "/CN=alice"))) s a else none) registered = some s :=
    Option.isSome_iff_exists.mp rfl
  obtain ⟨trace, hrun, hacts, halone⟩ := Run.of_foldlM_ok _ _ hs
  obtain rfl := Option.some.inj hs
  exact ⟨trace, _, hrun, hacts, rfl, rfl, rfl,
    served_own_data (twoRequests (some (ascii "/CN=alice"))) (fun _ => rfl) hrun halone⟩

/-- **Requests that meet the data of others**: a request without a
certificate is attributed to the user before it, and of two requests at once
one writes its response to the other's writer. -/
theorem served_data_of_others :
    (∃ trace, ∃ s : WebCommand Bool ℕ,
      Run (Step (twoRequests (some (ascii "/CN=alice")))) registered trace s
      ∧ trace.map Prod.snd = upToHandler false ++ [CommandAct.finish false] ++ upToHandler true
      ∧ s.stage true = .handling ∧ (twoRequests (some (ascii "/CN=alice")) true).subject = none
      ∧ s.members.remote_user_ = ascii "/CN=alice"
      ∧ ¬s.Own (twoRequests (some (ascii "/CN=alice"))) (.use true .remote_user_))
    ∧ ∃ trace, ∃ s : WebCommand Bool ℕ, Run (Step (twoRequests none)) registered trace s
      ∧ trace.map Prod.snd = upToHandler false ++ upToHandler true
      ∧ s.stage false = .handling ∧ (twoRequests none false).writer = 0 ∧ s.members.writer_ = 1
      ∧ ¬s.Own (twoRequests none) (.use false .writer_) := by
  constructor
  · obtain ⟨s, hs⟩ : ∃ s,
        (upToHandler false ++ [CommandAct.finish false] ++ upToHandler true).foldlM
        (next (twoRequests (some (ascii "/CN=alice")))) registered = some s :=
      Option.isSome_iff_exists.mp rfl
    obtain ⟨trace, hrun, hacts⟩ := Run.of_foldlM hs
    obtain rfl := Option.some.inj hs
    refine ⟨trace, _, hrun, hacts, rfl, rfl, rfl, ?_⟩
    show ¬ascii "/CN=alice" = []
    decide
  · obtain ⟨s, hs⟩ : ∃ s, (upToHandler false ++ upToHandler true).foldlM
        (next (twoRequests none)) registered = some s :=
      Option.isSome_iff_exists.mp rfl
    obtain ⟨trace, hrun, hacts⟩ := Run.of_foldlM hs
    obtain rfl := Option.some.inj hs
    refine ⟨trace, _, hrun, hacts, rfl, rfl, rfl, ?_⟩
    show ¬(1 : ℕ) = 0
    decide

end WebCommand
