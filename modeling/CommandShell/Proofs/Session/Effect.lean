import CommandShell.Session.Dispatch

/-!
# What a command can do

A command is refused and changes nothing, or it prints, or it does the one thing that it is there
for. How each of them ends is said here once; what holds of every command follows by cases.
-/

namespace CommandShell

variable {World : Type}

/-! ### Events -/

/-- What commands let be seen while they run. -/
def Event.IsOutput : Event → Prop
  | .printed _ | .child _ _ => True
  | _ => False

namespace Output

/-- Events of a kind were put behind those that were there. -/
def Grows (kind : Event → Prop) (before after : Output) : Prop :=
  ∃ made, after.events = before.events ++ made ∧ ∀ event ∈ made, kind event

variable {kind wider : Event → Prop} {before middle after : Output}

theorem Grows.refl (output : Output) : Grows kind output output :=
  ⟨[], (List.append_nil _).symm, fun _ hmember => by cases hmember⟩

theorem Grows.trans (hfront : Grows kind before middle) (hback : Grows kind middle after) :
    Grows kind before after := by
  obtain ⟨front, hmiddle, hkindFront⟩ := hfront
  obtain ⟨back, hafter, hkindBack⟩ := hback
  refine ⟨front ++ back, by rw [hafter, hmiddle, List.append_assoc], fun event hmember => ?_⟩
  exact (List.mem_append.mp hmember).elim (hkindFront event) (hkindBack event)

theorem Grows.mono (hgrows : Grows kind before after) (hkind : ∀ event, kind event → wider event) :
    Grows wider before after := by
  obtain ⟨made, hafter, hmade⟩ := hgrows
  exact ⟨made, hafter, fun event hmember => hkind event (hmade event hmember)⟩

theorem grows_emit (output : Output) {event : Event} (hkind : kind event) :
    Grows kind output (output.emit event) :=
  ⟨[event], rfl, List.forall_mem_singleton.mpr hkind⟩

theorem grows_print (output : Output) (text : Text) :
    Grows Event.IsOutput output (output.print text).1 := by
  unfold print write
  split
  · exact grows_emit output trivial
  · simp only
    split <;> exact grows_emit _ trivial

theorem grows_foldl_child (output : Output) (printed : List (Channel × Bytes)) :
    Grows Event.IsOutput output <| printed.foldl
      (fun output (channel, bytes) => output.emit (.child channel bytes)) output := by
  induction printed generalizing output with
  | nil => exact .refl output
  | cons entry rest ih => exact (grows_emit output trivial).trans (ih _)

end Output

namespace Session

theorem print_eq (session : Session World) (text : Text) :
    (session.print text).1 = { session with output := (session.output.print text).1 } := by
  unfold print
  split <;> next hprint => rw [hprint]

/-- Printing changes the output and nothing else. -/
theorem exists_conclude_eq (session : Session World) (text : Text) :
    ∃ output outcome, session.conclude text = ({ session with output }, outcome) ∧
      session.output.Grows Event.IsOutput output ∧ ∀ status, outcome = .ok status → status = 0 := by
  have hsession := print_eq session text
  have hgrows := Output.grows_print session.output text
  unfold conclude
  split
  · next after hprint =>
    rw [hprint] at hsession
    refine ⟨_, .ok 0, Prod.ext hsession rfl, hgrows, fun status hstatus => ?_⟩
    exact (Except.ok.inj hstatus).symm
  · next after failure hprint =>
    rw [hprint] at hsession
    exact ⟨_, .error failure, Prod.ext hsession rfl, hgrows, nofun⟩

end Session

namespace Builtin

/-- The built-in that a request is made of; help is the same of all. -/
def Request.owner? : Request → Option Builtin
  | .explain _ => none
  | .exit _ => some .exit
  | .cd _ => some .cd
  | .help _ => some .help
  | .env => some .env
  | .setenv _ _ => some .setenv
  | .unsetenv _ => some .unsetenv
  | .alias _ => some .alias
  | .history => some .history

theorem owner?_of_request {builtin : Builtin} {arguments : List Text} {request : Request}
    (hrequest : builtin.request arguments = .ok request) :
    request.owner? = none ∨ request.owner? = some builtin := by
  unfold Builtin.request at hrequest
  split at hrequest
  · cases hrequest
  · obtain rfl := Except.ok.inj hrequest
    exact .inl rfl
  · obtain rfl := Except.ok.inj hrequest
    refine .inr ?_
    cases builtin <;> rfl

/-- How a request can end. -/
inductive Effect (platform : Platform World) (session : Session World) :
    Request → Session World × Except Failure Status → Prop
  | refuse (request : Request) (failure : Failure) :
      Effect platform session request (session, .error failure)
  | tell (request : Request) {output : Output} {outcome : Except Failure Status}
      (hgrows : session.output.Grows Event.IsOutput output)
      (hok : ∀ status, outcome = .ok status → status = 0) :
      Effect platform session request ({ session with output }, outcome)
  | leave {operand : Option Text} {code : Status}
      (hcode : operand.elim (some session.status) exitStatus? = some code) :
      Effect platform session (.exit operand) ({ session with leaving := some code }, .ok code)
  | move {target : Option Text} {place : Text} {announced : Bool} {directory : Path}
      {world : World} {output : Output} {outcome : Except Failure Status}
      (hdestination : destination session.environment target = .ok (place, announced))
      (hcanonical : platform.canonical? session.world
        (Path.join session.environment.directory place) = some directory)
      (henter : platform.enter? session.world directory = some world)
      (hgrows : session.output.Grows Event.IsOutput output)
      (hsilent : announced = false → output = session.output ∧ outcome = .ok 0)
      (hok : ∀ status, outcome = .ok status → status = 0) :
      Effect platform session (.cd target)
        ({ session with world, environment := moved session.environment directory, output },
          outcome)
  | bind {name : Text} (value : Text) (hname : isVariableName name = true) :
      Effect platform session (.setenv name value)
        ({ session with environment := session.environment.set name value }, .ok 0)
  | unbind {names : List Text} (hnames : names ≠ []) :
      Effect platform session (.unsetenv names)
        ({ session with environment := names.foldl Environment.unset session.environment }, .ok 0)
  | define (definitions : List Text) (aliases : Bindings) {output : Output}
      {outcome : Except Failure Status} (hgrows : session.output.Grows Event.IsOutput output)
      (hok : ∀ status, outcome = .ok status → status = 0) :
      Effect platform session (.alias definitions) ({ session with aliases, output }, outcome)

variable (platform : Platform World)

theorem effect_conclude (session : Session World) (request : Request) (text : Text) :
    Effect platform session request (session.conclude text) := by
  obtain ⟨output, outcome, hconclude, hgrows, hok⟩ := session.exists_conclude_eq text
  rw [hconclude]
  exact .tell request hgrows hok

theorem effect_leave (session : Session World) (operand : Option Text) :
    Effect platform session (.exit operand) (leave session operand) := by
  cases operand with
  | none => exact .leave rfl
  | some text =>
      unfold leave
      simp only
      split
      · exact .refuse _ _
      · next code hcode => exact .leave hcode

theorem effect_changeDirectory (session : Session World) (target : Option Text) :
    Effect platform session (.cd target) (changeDirectory platform session target) := by
  unfold changeDirectory
  split
  · exact .refuse _ _
  next place announced hdestination =>
  split
  · exact .refuse _ _
  next directory hcanonical =>
  split
  · exact .refuse _ _
  next world henter =>
  simp only
  split
  · next hannounced =>
    obtain ⟨output, outcome, hconclude, hgrows, hok⟩ := Session.exists_conclude_eq
      { session with world, environment := moved session.environment directory }
      ([directory].flatMap (· ++ ['\n']))
    rw [Session.printLines, hconclude]
    exact .move hdestination hcanonical henter hgrows (fun hsilent => by simp_all) hok
  · exact .move hdestination hcanonical henter (.refl _) (fun _ => ⟨rfl, rfl⟩) fun status hstatus =>
      (Except.ok.inj hstatus).symm

theorem effect_describe (session : Session World) (topic : Option Text) :
    Effect platform session (.help topic) (describe session topic) := by
  unfold describe
  split
  · exact effect_conclude _ _ _ _
  · split
    · exact effect_conclude _ _ _ _
    · exact .refuse _ _

theorem effect_setVariable (session : Session World) (name value : Text) :
    Effect platform session (.setenv name value) (setVariable session name value) := by
  unfold setVariable
  split
  · next hname => exact .bind value hname
  · exact .refuse _ _

theorem effect_unsetVariables (session : Session World) (names : List Text) :
    Effect platform session (.unsetenv names) (unsetVariables session names) := by
  unfold unsetVariables
  split
  · exact .refuse _ _
  · next hnames => exact .unbind (by simpa using hnames)

theorem exists_define_eq (session : Session World) (missing : List Text)
    (definitions : List Alias.Definition) :
    ∃ aliases output, (define session missing definitions).1 = { session with aliases, output } ∧
      session.output.Grows Event.IsOutput output := by
  induction session, missing, definitions using define.induct with
  | case1 session missing => exact ⟨_, _, rfl, .refl _⟩
  | case2 session missing value rest => exact ⟨_, _, rfl, .refl _⟩
  | case3 session missing name value rest hname ih =>
      rw [define]
      · exact ih
      · exact hname
  | case4 session missing name rest hvalue ih =>
      rw [define, hvalue]
      exact ih
  | case5 session missing name rest value hvalue after hprint ih =>
      -- The rest starts from the session that has printed, which differs in its output only.
      have hafter := Session.print_eq session (Alias.display name value ++ ['\n'])
      have hgrows := Output.grows_print session.output (Alias.display name value ++ ['\n'])
      rw [hprint] at hafter
      obtain ⟨aliases, output, hrest, hgrowsRest⟩ := ih
      simp only at hafter
      rw [hafter] at hrest hgrowsRest
      rw [define, hvalue]
      simp only [hprint]
      rw [hafter]
      exact ⟨aliases, output, hrest, hgrows.trans hgrowsRest⟩
  | case6 session missing name rest value hvalue after failure hprint =>
      have hafter := Session.print_eq session (Alias.display name value ++ ['\n'])
      rw [hprint] at hafter
      rw [define, hvalue]
      simp only [hprint]
      exact ⟨_, _, hafter, Output.grows_print _ _⟩

theorem effect_runAlias (session : Session World) (definitions : List Text) :
    Effect platform session (.alias definitions) (runAlias session definitions) := by
  obtain ⟨aliases, output, hdefine, hgrows⟩ := exists_define_eq session []
    (Alias.Definition.parse (Text.joined " " definitions))
  unfold runAlias
  split
  · exact effect_conclude _ _ _ _
  · split
    · next after hafter =>
      rw [hafter] at hdefine
      simp only at hdefine
      rw [hdefine]
      exact .define _ aliases hgrows fun status hstatus => (Except.ok.inj hstatus).symm
    · next after missing _ hafter =>
      rw [hafter] at hdefine
      simp only at hdefine
      rw [hdefine]
      exact .define _ aliases hgrows nofun
    · next after failure hafter =>
      rw [hafter] at hdefine
      simp only at hdefine
      rw [hdefine]
      exact .define _ aliases hgrows nofun

theorem effect_perform (session : Session World) (request : Request) :
    Effect platform session request (perform platform session request) := by
  cases request with
  | explain builtin => exact effect_conclude _ _ _ _
  | exit operand => exact effect_leave _ _ _
  | cd target => exact effect_changeDirectory _ _ _
  | help topic => exact effect_describe _ _ _
  | env => exact effect_conclude _ _ _ _
  | setenv name value => exact effect_setVariable _ _ _ _
  | unsetenv names => exact effect_unsetVariables _ _ _
  | «alias» definitions => exact effect_runAlias _ _ _
  | history => exact effect_conclude _ _ _ _

end Builtin

namespace Session

/-- How a command can end. -/
inductive Effect (platform : Platform World) (session : Session World) (name : Text)
    (arguments : List Text) : Session World × Except Failure Status → Prop
  | refuse (failure : Failure) : Effect platform session name arguments (session, .error failure)
  | perform {builtin : Builtin} {request : Builtin.Request}
      {result : Session World × Except Failure Status} (hname : Builtin.find? name = some builtin)
      (hrequest : builtin.request arguments = .ok request)
      (heffect : Builtin.Effect platform session request result) :
      Effect platform session name arguments result
  | child {program : Path} {child : ChildRun World} {output : Output}
      (hname : Builtin.find? name = none)
      (hlocate : Child.locate platform session name = some program)
      (hstart : Child.start platform session.world
        (Child.launchOf session.environment program name arguments) = .ok child)
      (hgrows : session.output.Grows Event.IsOutput output) :
      Effect platform session name arguments
        ({ session with world := child.world, output }, .ok child.ending.status)

theorem effect_dispatch (platform : Platform World) (session : Session World) (name : Text)
    (arguments : List Text) :
    Effect platform session name arguments (session.dispatch platform name arguments) := by
  unfold dispatch
  split
  · next builtin hname =>
    unfold Builtin.run
    split
    · exact .refuse _
    · next request hrequest =>
      exact .perform hname hrequest (Builtin.effect_perform platform session request)
  · next hname =>
    unfold Child.run
    split
    · exact .refuse _
    next program hlocate =>
    split
    · exact .refuse _
    split
    · exact .refuse _
    · next child hstart =>
      exact .child hname hlocate hstart (Output.grows_foldl_child _ _)

end Session

end CommandShell
