import CommandShell.Proofs.Session.Effect
import CommandShell.Proofs.Shell.Queue

/-!
# What no command touches

Commands change the history of a session in no way, and the world only by entering a directory and
by running a child. What both of these keep, every line keeps.
-/

namespace CommandShell

variable {World : Type}

/-- Neither a change of directory nor a child touches what is kept. -/
structure Platform.Spares (platform : Platform World) (kept : World → Prop) : Prop where
  enter : ∀ {world after directory}, platform.enter? world directory = some after →
    kept world → kept after
  launch : ∀ {world launch child}, platform.launch world launch = .ok child →
    kept world → kept child.world

structure Session.Frame (kept : World → Prop) (before after : Session World) : Prop where
  history : after.history = before.history
  world : kept before.world → kept after.world

namespace Session

variable {kept : World → Prop}

theorem Frame.of_eq {before after : Session World} (hhistory : after.history = before.history)
    (hworld : after.world = before.world) : Frame kept before after :=
  ⟨hhistory, fun hkept => hworld ▸ hkept⟩

theorem Frame.refl (session : Session World) : Frame kept session session :=
  .of_eq rfl rfl

theorem Frame.trans {first second third : Session World} (hfront : Frame kept first second)
    (hback : Frame kept second third) : Frame kept first third :=
  ⟨hback.history.trans hfront.history, fun hkept => hback.world (hfront.world hkept)⟩

theorem frame_print (session : Session World) (text : Text) :
    Frame kept session (session.print text).1 := by
  unfold print
  split <;> exact .of_eq rfl rfl

end Session

namespace Builtin

variable {platform : Platform World} {kept : World → Prop} {session : Session World}

theorem Effect.frame (hspares : platform.Spares kept) {request : Request}
    {result : Session World × Except Failure Status}
    (heffect : Effect platform session request result) : Session.Frame kept session result.1 := by
  cases heffect with
  | refuse => exact .refl session
  | tell => exact .of_eq rfl rfl
  | leave => exact .of_eq rfl rfl
  | move _ _ henter => exact ⟨rfl, hspares.enter henter⟩
  | bind => exact .of_eq rfl rfl
  | unbind => exact .of_eq rfl rfl
  | define => exact .of_eq rfl rfl

end Builtin

namespace Child

variable {platform : Platform World} {kept : World → Prop}

theorem start_keeps (hspares : platform.Spares kept) {world : World} {launch : Launch}
    {child : ChildRun World} (hstart : start platform world launch = .ok child)
    (hkept : kept world) : kept child.world := by
  unfold start at hstart
  split at hstart
  · cases hstart
  · exact hspares.launch hstart hkept

end Child

namespace Session

variable {platform : Platform World} {kept : World → Prop}

theorem Effect.frame (hspares : platform.Spares kept) {session : Session World} {name : Text}
    {arguments : List Text} {result : Session World × Except Failure Status}
    (heffect : Effect platform session name arguments result) : Frame kept session result.1 := by
  cases heffect with
  | refuse => exact .refl session
  | perform _ _ heffect => exact heffect.frame hspares
  | child _ _ hstart => exact ⟨rfl, Child.start_keeps hspares hstart⟩

theorem frame_dispatch (hspares : platform.Spares kept) (session : Session World) (name : Text)
    (arguments : List Text) :
    Frame kept session (session.dispatch platform name arguments).1 :=
  (effect_dispatch platform session name arguments).frame hspares

theorem frame_settle (session : Session World) (command : Text)
    (outcome : Except Failure Status) : Frame kept session (session.settle command outcome) := by
  cases outcome <;> exact .of_eq rfl rfl

theorem frame_endInterrupt (session : Session World) : Frame kept session session.endInterrupt := by
  unfold endInterrupt
  split
  · exact frame_print _ _
  · exact .refl session

theorem frame_flush (session : Session World) : Frame kept session session.flush := by
  unfold flush
  split
  · exact .refl session
  · exact .of_eq rfl rfl

theorem frame_runWords (hspares : platform.Spares kept) (session : Session World)
    (words : List Text) : Frame kept session (session.runWords platform words) := by
  cases words with
  | nil => exact .refl session
  | cons name arguments =>
      have hemit : Frame kept session (session.emit (.dispatched (name :: arguments))) :=
        .of_eq rfl rfl
      exact (((hemit.trans (frame_dispatch hspares _ name arguments)).trans
        (frame_settle _ name _)).trans (frame_endInterrupt _)).trans (frame_flush _)

theorem frame_runSegment (hspares : platform.Spares kept) (session : Session World)
    (segment : Segment) : Frame kept session (session.runSegment platform segment) :=
  frame_runWords hspares session _

end Session

namespace Shell

variable {platform : Platform World} {kept : World → Prop}

theorem frame_drain (hspares : platform.Spares kept) (session : Session World)
    (pending : List Segment) :
    Session.Frame kept session (drain platform session pending).1.session := by
  induction session, pending using drain_induction platform with
  | nil session =>
      rw [drain_nil]
      exact .refl session
  | skip session segment rest hpermits ih =>
      rw [drain_cons_of_not_permits platform hpermits]
      exact ih
  | leave session segment rest code hpermits hleaving =>
      rw [drain_cons_of_permits platform hpermits]
      simp only [hleaving]
      exact Session.frame_runSegment hspares session _
  | stay session segment rest hpermits hleaving ih =>
      rw [drain_cons_of_permits platform hpermits]
      simp only [hleaving]
      exact (Session.frame_runSegment hspares session _).trans ih

end Shell

end CommandShell
