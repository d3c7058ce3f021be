import CommandShell.Proofs.Builtin.Requests
import CommandShell.Proofs.Environment.Blocks
import CommandShell.Proofs.History.Records
import CommandShell.Proofs.Shell.Composition
import CommandShell.Proofs.Shell.Reaching

/-!
# Variables that children can receive

A `setenv` that is not refused binds a name that can be told from its value, and nothing else brings
in names but `cd`. It does not look for a NUL, and a single one that reaches children keeps all of
them from starting. It does not reach them when the name was inherited more than once: they find the
value that was inherited last. Input without a NUL leads to none, whatever aliases and references
make of it.
-/

namespace CommandShell

variable {World : Type} {platform : Platform World} {command : Command World}

/-- A `setenv` that is not refused. -/
structure Command.Binds (command : Command World) (name value : Text) : Prop where
  named : Builtin.find? command.name = some .setenv
  asked : Builtin.setenv.request command.arguments = .ok (.setenv name value)
  accepted : Builtin.isVariableName name = true

/-- A `setenv` that brings a NUL into the variables. -/
def Command.BindsNul (command : Command World) : Prop :=
  ∃ name value, command.Binds name value ∧ ('\x00' ∈ name ∨ '\x00' ∈ value)

/-! ### One command -/

namespace Command

open Environment

theorem each_after {holds : Bytes × Bytes → Prop} (heach : command.session.environment.Each holds)
    (hbind : ∀ name value, command.Binds name value → holds (entryOf name value))
    (hmove : ∀ path directory, platform.canonical? command.session.world path = some directory →
      holds (entryOf "OLDPWD" command.session.environment.directory) ∧
        holds (entryOf "PWD" directory)) :
    (command.after platform).environment.Each holds := by
  rw [command.between_ended.environment_eq]
  have heffect := command.effect_ended platform
  generalize command.ended platform = result at heffect
  cases heffect with
  | refuse | child => exact heach
  | @perform builtin request result hname hrequest heffect =>
      refine heffect.each heach ?_ hmove
      rintro name value rfl haccepted
      rcases Builtin.owner?_of_request hrequest with hnone | howner
      · cases hnone
      · obtain rfl := Option.some.inj howner
        exact hbind name value ⟨hname, hrequest, haccepted⟩

theorem directory_after_cases (platform : Platform World) (command : Command World) :
    (command.after platform).environment.directory = command.session.environment.directory ∨
      ∃ path, platform.canonical? command.session.world path =
        some (command.after platform).environment.directory := by
  rw [command.between_ended.environment_eq]
  have heffect := command.effect_ended platform
  generalize command.ended platform = result at heffect
  cases heffect with
  | refuse | child => exact .inl rfl
  | perform _ _ heffect => exact heffect.directory_cases

theorem named_after (hnamed : command.session.environment.Named) :
    (command.after platform).environment.Named :=
  each_after hnamed (fun _ value hbinds => named_entryOf hbinds.accepted value)
    fun _ directory _ => ⟨named_entryOf (by decide) _, named_entryOf (by decide) directory⟩

theorem Binds.ended_eq {name value : Text} (hbinds : command.Binds name value) :
    command.ended platform =
      Builtin.setVariable (command.session.emit (.dispatched command.words)) name value := by
  simp only [ended, Session.dispatch, hbinds.named, Builtin.run, hbinds.asked, Builtin.perform]

theorem Binds.succeeds {name value : Text} (hbinds : command.Binds name value)
    (platform : Platform World) : (command.ended platform).2 = .ok 0 := by
  rw [hbinds.ended_eq, Builtin.setVariable, if_pos hbinds.accepted]

theorem Binds.environment_after {name value : Text} (hbinds : command.Binds name value)
    (platform : Platform World) :
    (command.after platform).environment = command.session.environment.set name value := by
  rw [command.between_ended.environment_eq, hbinds.ended_eq, Builtin.setVariable,
    if_pos hbinds.accepted]
  rfl

theorem Binds.not_nulFree_after {name value : Text} (hbinds : command.Binds name value)
    (hnul : '\x00' ∈ name ∨ '\x00' ∈ value) (platform : Platform World) :
    ¬ (command.after platform).environment.NulFree := by
  intro hfree
  rw [hbinds.environment_after] at hfree
  have hentry := Bindings.mem_of_get?_eq_some (get?_set command.session.environment name value)
  obtain ⟨hname, hvalue⟩ := nulFree_entryOf_iff.mp (Each.of_mem_bindings hfree hentry)
  exact hnul.elim hname hvalue

theorem Binds.receivable_after_iff {name value : Text} (hbinds : command.Binds name value)
    (hnul : '\x00' ∈ name ∨ '\x00' ∈ value) (platform : Platform World) :
    (command.after platform).environment.Receivable ↔
      command.session.environment.Receivable ∧
        2 ≤ (command.session.environment.values name).length := by
  rw [hbinds.environment_after, receivable_set_iff hnul]

/-- Where no name has several values, a NUL that is bound reaches every child. -/
theorem BindsNul.refuses_after (hbinds : command.BindsNul)
    (hsingle : command.session.environment.Single) (platform : Platform World) :
    (command.after platform).environment.Refuses platform := by
  obtain ⟨name, value, hbound, hnul⟩ := hbinds
  refine refuses_of_not_receivable (fun hreceivable => ?_) platform
  obtain ⟨-, hrepeated⟩ := (hbound.receivable_after_iff hnul platform).mp hreceivable
  exact absurd (hsingle name) (Nat.not_le_of_lt hrepeated)

theorem single_after (hsingle : command.session.environment.Single) :
    (command.after platform).environment.Single := by
  rw [command.between_ended.environment_eq]
  have heffect := command.effect_ended platform
  generalize command.ended platform = result at heffect
  cases heffect with
  | refuse | child => exact hsingle
  | perform _ _ heffect => exact heffect.single hsingle

end Command

/-- What the system spells out holds no NUL. -/
def Platform.SpellsFree (platform : Platform World) : Prop :=
  ∀ world path directory, platform.canonical? world path = some directory → '\x00' ∉ directory

/-- A system on which nothing is found whose place holds a NUL. -/
def Platform.withoutNul (platform : Platform World) : Platform World :=
  { platform with
    canonical? := fun world path => (platform.canonical? world path).filter (!·.contains '\x00') }

theorem Platform.spellsFree_withoutNul (platform : Platform World) :
    platform.withoutNul.SpellsFree := by
  intro world path directory hcanonical
  obtain ⟨-, hfree⟩ := Option.filter_eq_some_iff.mp hcanonical
  simpa using hfree

structure Session.NulFree (session : Session World) : Prop where
  environment : session.environment.NulFree
  directory : '\x00' ∉ session.environment.directory

theorem Command.nulFree_after (hspells : platform.SpellsFree) (hfree : command.session.NulFree)
    (hbinds : ¬ command.BindsNul) : (command.after platform).NulFree where
  environment := by
    refine each_after hfree.environment ?_ ?_
    · intro name value hbound
      refine Environment.nulFree_entryOf_iff.mpr ⟨fun hnul => ?_, fun hnul => ?_⟩
      · exact hbinds ⟨name, value, hbound, .inl hnul⟩
      · exact hbinds ⟨name, value, hbound, .inr hnul⟩
    · intro path directory hcanonical
      have hdirectory := hspells _ path directory hcanonical
      exact ⟨Environment.nulFree_entryOf_iff.mpr ⟨by decide, hfree.directory⟩,
        Environment.nulFree_entryOf_iff.mpr ⟨by decide, hdirectory⟩⟩
  directory := by
    rcases command.directory_after_cases platform with hsame | ⟨path, hcanonical⟩
    · exact hsame ▸ hfree.directory
    · exact hspells _ path _ hcanonical

/-! ### What aliases come to hold -/

namespace Builtin

variable {session : Session World} {entry : Text × Text}

theorem mem_aliases_define {missing : List Text} {definitions : List Alias.Definition}
    (hentry : entry ∈ (define session missing definitions).1.aliases.toList) :
    entry ∈ session.aliases.toList ∨ .define entry.1 entry.2 ∈ definitions := by
  induction session, missing, definitions using define.induct with
  | case1 session missing => exact .inl hentry
  | case2 session missing value rest => exact .inl hentry
  | case3 session missing name value rest hname ih =>
      rw [define] at hentry
      · rcases ih hentry with hput | hrest
        · rcases Bindings.mem_put hput with hearlier | rfl
          · exact .inl hearlier
          · exact .inr List.mem_cons_self
        · exact .inr (List.mem_cons_of_mem _ hrest)
      · exact hname
  | case4 session missing name rest hvalue ih =>
      rw [define, hvalue] at hentry
      exact (ih hentry).imp_right (List.mem_cons_of_mem _)
  | case5 session missing name rest value hvalue after hprint ih =>
      have hafter := Session.print_eq session (Alias.display name value ++ ['\n'])
      rw [hprint] at hafter
      rw [define, hvalue] at hentry
      simp only [hprint] at hentry
      refine (ih hentry).imp (fun hearlier => ?_) (List.mem_cons_of_mem _)
      rwa [show after = _ from hafter] at hearlier
  | case6 session missing name rest value hvalue after failure hprint =>
      have hafter := Session.print_eq session (Alias.display name value ++ ['\n'])
      rw [hprint] at hafter
      rw [define, hvalue] at hentry
      simp only [hprint] at hentry
      rw [show after = _ from hafter] at hentry
      exact .inl hentry

theorem aliases_runAlias (session : Session World) (definitions : List Text) :
    (runAlias session definitions).1.aliases = session.aliases ∨
      (runAlias session definitions).1.aliases =
        (define session [] (Alias.Definition.parse (Text.joined " " definitions))).1.aliases := by
  unfold runAlias
  split
  · obtain ⟨output, outcome, hconclude, -⟩ := session.exists_conclude_eq
      ((Alias.displayAll session.aliases).flatMap (· ++ ['\n']))
    rw [Session.printLines, hconclude]
    exact .inl rfl
  · split <;> next hdefine => exact .inr (by rw [hdefine])

theorem aliases_perform {request : Request} (hother : ∀ definitions, request ≠ .alias definitions) :
    (perform platform session request).1.aliases = session.aliases := by
  have heffect := effect_perform platform session request
  generalize perform platform session request = result at heffect
  cases heffect with
  | define definitions => exact absurd rfl (hother definitions)
  | refuse | tell | leave | move | bind | unbind => rfl

/-- The value of a new alias is made of what `alias` is told. -/
theorem mem_aliases_perform {request : Request}
    (hentry : entry ∈ (perform platform session request).1.aliases.toList) :
    entry ∈ session.aliases.toList ∨ ∃ definitions, request = .alias definitions ∧
      ∀ character ∈ entry.2, character = ' ' ∨ ∃ part ∈ definitions, character ∈ part := by
  by_cases halias : ∃ definitions, request = .alias definitions
  · obtain ⟨definitions, rfl⟩ := halias
    have hdefined : entry ∈ session.aliases.toList ∨
        .define entry.1 entry.2 ∈ Alias.Definition.parse (Text.joined " " definitions) := by
      rw [perform] at hentry
      rcases aliases_runAlias session definitions with hsame | hdefine
      · exact .inl (hsame ▸ hentry)
      · exact mem_aliases_define (hdefine ▸ hentry)
    refine hdefined.imp_right fun hdefine => ⟨definitions, rfl, fun character hcharacter => ?_⟩
    have hjoined := Alias.Definition.mem_of_mem_parse hdefine hcharacter
    exact (Text.mem_of_mem_joined hjoined).imp_left List.mem_singleton.mp
  · rw [aliases_perform fun definitions hsame => halias ⟨definitions, hsame⟩] at hentry
    exact .inl hentry

end Builtin

theorem Child.aliases_run (session : Session World) (name : Text) (arguments : List Text) :
    (Child.run platform session name arguments).1.aliases = session.aliases := by
  unfold Child.run
  split
  · rfl
  · split
    · rfl
    · split <;> rfl

/-! ### Input without a NUL -/

/-- No alias brings a NUL back either. -/
structure Session.Clean (session : Session World) : Prop extends session.NulFree where
  aliases : ∀ entry ∈ session.aliases.toList, '\x00' ∉ entry.2

namespace Command

/-- No argument holds a NUL. -/
def NulFree (command : Command World) : Prop :=
  ∀ argument ∈ command.arguments, '\x00' ∉ argument

theorem NulFree.not_bindsNul (hfree : command.NulFree) : ¬ command.BindsNul := by
  rintro ⟨name, value, hbinds, hnul⟩
  have hoperand (place : Nat) : '\x00' ∉ command.arguments[place]?.getD [] := by
    cases hfound : command.arguments[place]? with
    | none => exact List.not_mem_nil
    | some argument => exact hfree argument (List.mem_of_getElem? hfound)
  obtain ⟨-, hexplain⟩ | ⟨-, hrequest, -⟩ := Builtin.request_cases hbinds.asked
  · cases hexplain
  · cases hrequest
    exact hnul.elim (hoperand 0) (hoperand 1)

theorem nul_not_mem_aliases_after (hfree : command.NulFree)
    (haliases : ∀ entry ∈ command.session.aliases.toList, '\x00' ∉ entry.2) :
    ∀ entry ∈ (command.after platform).aliases.toList, '\x00' ∉ entry.2 := by
  intro entry hentry
  rw [command.between_ended.aliases_eq, ended, Session.dispatch] at hentry
  split at hentry
  · next builtin hname =>
    unfold Builtin.run at hentry
    split at hentry
    · exact haliases entry hentry
    · next request hrequest =>
      rcases Builtin.mem_aliases_perform hentry with hearlier | ⟨definitions, rfl, hmade⟩
      · exact haliases entry hearlier
      · -- What is defined is what the arguments say.
        obtain ⟨-, hexplain⟩ | ⟨-, hoperands, -⟩ := Builtin.request_cases hrequest
        · cases hexplain
        · have hsame : definitions = command.arguments := by
            cases builtin <;> cases hoperands
            rfl
          intro hnul
          rcases hmade _ hnul with hspace | ⟨part, hpart, hmember⟩
          · exact absurd hspace (by decide)
          · exact hfree part (hsame ▸ hpart) hmember
  · rw [Child.aliases_run] at hentry
    exact haliases entry hentry

theorem clean_after (hspells : platform.SpellsFree) (hclean : command.session.Clean)
    (hfree : command.NulFree) : (command.after platform).Clean where
  toNulFree := nulFree_after hspells hclean.toNulFree hfree.not_bindsNul
  aliases := nul_not_mem_aliases_after hfree hclean.aliases

end Command

namespace Session

variable {before after session : Session World}

theorem NulFree.between (hbetween : Between platform before after) (hfree : before.NulFree) :
    after.NulFree where
  environment := hbetween.environment_eq ▸ hfree.environment
  directory := hbetween.environment_eq ▸ hfree.directory

theorem Clean.between (hbetween : Between platform before after) (hclean : before.Clean) :
    after.Clean where
  toNulFree := hclean.toNulFree.between hbetween
  aliases := hbetween.aliases_eq ▸ hclean.aliases

theorem Clean.nul_not_mem_expandedWords (hclean : session.Clean) {text word : Text}
    (htext : '\x00' ∉ text) (hword : word ∈ session.expandedWords text) : '\x00' ∉ word := by
  intro hnul
  obtain ⟨typed, htyped, rfl⟩ := List.mem_map.mp hword
  rcases Variable.Context.mem_of_mem_expand hnul with htyped' | ⟨entry, hentry, hvalue⟩ | hnumber
  · exact htext (Text.mem_of_mem_pieces (List.mem_of_mem_filter htyped) _ htyped')
  · exact (Environment.nulFree_entryOf_iff.mp
      (Environment.Each.of_mem_bindings hclean.environment hentry)).2 hvalue
  · exact absurd hnumber (by decide)

theorem Clean.nul_not_mem_resolve (hclean : session.Clean) {segment piece : Segment}
    (hsegment : '\x00' ∉ segment.text)
    (hpiece : piece = (Shell.resolve session.aliases segment).1 ∨
      piece ∈ (Shell.resolve session.aliases segment).2) : '\x00' ∉ piece.text := by
  intro hnul
  rcases Shell.mem_of_mem_resolve hpiece hnul with htyped | ⟨entry, hentry, hvalue⟩
  · exact hsegment htyped
  · exact hclean.aliases entry hentry hvalue

theorem Clean.nulFree_of_mem_ofSegment (hclean : session.Clean) {segment : Segment}
    (hsegment : '\x00' ∉ segment.text) {command : Command World}
    (hcommand : command ∈ Command.ofSegment session segment) : command.NulFree := by
  intro argument hargument
  unfold Command.ofSegment at hcommand
  split at hcommand
  · cases hcommand
  · next name arguments hwords =>
    obtain rfl := List.mem_singleton.mp hcommand
    exact hclean.nul_not_mem_expandedWords hsegment (hwords ▸ List.mem_cons_of_mem name hargument)

theorem Clean.runSegment (hspells : platform.SpellsFree) (hclean : session.Clean)
    {segment : Segment} (hsegment : '\x00' ∉ segment.text) :
    (session.runSegment platform segment).Clean := by
  rcases Command.ofSegment_cases platform session segment with
    ⟨-, hrun⟩ | ⟨command, hcommand, rfl, hrun⟩
  · rwa [hrun]
  · rw [hrun]
    refine Command.clean_after hspells hclean (hclean.nulFree_of_mem_ofSegment hsegment ?_)
    exact hcommand ▸ List.mem_singleton_self command

end Session

namespace Shell

variable {session : Session World}

theorem clean_drain (hspells : platform.SpellsFree) (hclean : session.Clean)
    {pending : List Segment} (hpending : ∀ segment ∈ pending, '\x00' ∉ segment.text) :
    (∀ command ∈ queueCommands platform session pending, command.NulFree) ∧
      (drain platform session pending).1.session.Clean := by
  induction session, pending using drain_induction platform with
  | nil session =>
      rw [drain_nil, queueCommands_nil]
      exact ⟨List.forall_mem_nil _, hclean⟩
  | skip session segment rest hpermits ih =>
      rw [drain_cons_of_not_permits platform hpermits,
        queueCommands_cons_of_not_permits platform hpermits]
      exact ih hclean (List.forall_mem_of_forall_mem_cons hpending)
  | leave session segment rest code hpermits hleaving =>
      obtain ⟨hsegment, -⟩ := List.forall_mem_cons.mp hpending
      have hfirst := hclean.nul_not_mem_resolve hsegment (.inl rfl)
      rw [drain_cons_of_permits platform hpermits, queueCommands_cons_of_permits platform hpermits]
      simp only [hleaving, List.append_nil]
      exact ⟨fun _ => hclean.nulFree_of_mem_ofSegment hfirst, hclean.runSegment hspells hfirst⟩
  | stay session segment rest hpermits hleaving ih =>
      obtain ⟨hsegment, hrest⟩ := List.forall_mem_cons.mp hpending
      have hfirst := hclean.nul_not_mem_resolve hsegment (.inl rfl)
      obtain ⟨hlater, hfinal⟩ := ih (hclean.runSegment hspells hfirst)
        (List.forall_mem_append.mpr
          ⟨fun piece hpiece => hclean.nul_not_mem_resolve hsegment (.inr hpiece), hrest⟩)
      rw [drain_cons_of_permits platform hpermits, queueCommands_cons_of_permits platform hpermits]
      simp only [hleaving]
      exact ⟨List.forall_mem_append.mpr
        ⟨fun _ => hclean.nulFree_of_mem_ofSegment hfirst, hlater⟩, hfinal⟩

theorem clean_executeLine (hspells : platform.SpellsFree) {shell : Shell World}
    (hclean : shell.session.Clean) {line : Text} (hline : '\x00' ∉ line) (recorded : Bool) :
    (∀ command ∈ shell.lineCommands platform line recorded, command.NulFree) ∧
      (shell.executeLine platform line recorded).1.session.Clean := by
  unfold lineCommands executeLine
  cases haccepted : Line.accepted? line with
  | none => exact ⟨List.forall_mem_nil _, hclean⟩
  | some text =>
      obtain ⟨hstart, -⟩ := Line.prefix_of_accepted? haccepted
      refine clean_drain hspells ?_ fun segment hsegment hnul => ?_
      · cases recorded with
        | false => exact hclean
        | true => exact hclean.between (between_remember _ text)
      · exact hline (hstart.subset ((Chain.infix_of_mem_split hsegment).subset hnul))

theorem clean_runLines (hspells : platform.SpellsFree) {shell : Shell World}
    (hclean : shell.session.Clean) {lines : List Text} (hlines : ∀ line ∈ lines, '\x00' ∉ line) :
    ∀ command ∈ shell.commands platform lines, command.NulFree := by
  induction lines generalizing shell with
  | nil => exact List.forall_mem_nil _
  | cons line rest ih =>
      obtain ⟨hline, hrest⟩ := List.forall_mem_cons.mp hlines
      have hcounted : shell.countLine.session.Clean :=
        ⟨⟨hclean.environment, hclean.directory⟩, hclean.aliases⟩
      obtain ⟨hcommands, hafter⟩ := clean_executeLine hspells hcounted hline true
      rw [← runLine] at hafter
      rw [commands]
      refine List.forall_mem_append.mpr ⟨hcommands, ?_⟩
      generalize shell.runLine platform line = run at hafter
      obtain ⟨after, _ | code⟩ := run
      · exact ih hafter hrest
      · exact List.forall_mem_nil _

theorem nulFree_commands (hspells : platform.SpellsFree) {shell : Shell World}
    (hfree : shell.session.NulFree) {content : Bytes} (hcontent : 0 ∉ content)
    (haliases : ∀ entry ∈ shell.session.aliases.toList, '\x00' ∉ entry.2) :
    ∀ command ∈ shell.commands platform ((Line.ofBytes content).map Utf8.decodeLossy),
      command.NulFree := by
  refine clean_runLines hspells ⟨hfree, haliases⟩ fun line hline => ?_
  obtain ⟨piece, hpiece, rfl⟩ := List.mem_map.mp hline
  exact History.nul_not_mem_of_mem_ofBytes hcontent hpiece

/-! ### Whole runs -/

variable {start final : Session World} {taken : List (Command World)}

theorem environment_of_reaches {holds : Environment → Prop}
    (hkeeps : ∀ command : Command World, holds command.session.environment →
      holds (command.after platform).environment)
    (hreaches : Reaches platform start taken final) (hstart : holds start.environment) :
    (∀ command ∈ taken, holds command.session.environment) ∧ holds final.environment := by
  have hbetween (before after : Session World) (hbetween : Session.Between platform before after)
      (hbefore : holds before.environment) : holds after.environment :=
    hbetween.environment_eq ▸ hbefore
  exact hreaches.keeps hbetween (fun command _ => hkeeps command) hstart

theorem nulFree_of_reaches (hspells : platform.SpellsFree)
    (hreaches : Reaches platform start taken final) (hfree : start.NulFree)
    (hbinds : ∀ command ∈ taken, ¬ command.BindsNul) :
    (∀ command ∈ taken, command.session.NulFree) ∧ final.NulFree :=
  hreaches.keeps (fun _ _ => Session.NulFree.between)
    (fun command hcommand hbefore =>
      Command.nulFree_after hspells hbefore (hbinds command hcommand)) hfree

/-- Only a `setenv` that is given a NUL brings one into the variables, and it succeeds. No child is
started any more then, unless the name had several values: children find the last of these, and can
receive the variables as before. -/
theorem receivable_of_reaches (hspells : platform.SpellsFree) {shell : Shell World}
    (hnamed : shell.session.environment.Named) (hfree : shell.session.NulFree) :
    (∀ taken session, Reaches platform shell.session taken session →
      session.environment.Named ∧
        ((∀ command ∈ taken, ¬ command.BindsNul) →
          session.environment.NulFree ∧ session.environment.Passes platform) ∧
        (shell.session.environment.Single → ∀ command ∈ taken, command.BindsNul →
          (command.after platform).environment.Refuses platform)) ∧
    (∀ (command : Command World) name value, command.Binds name value →
      '\x00' ∈ name ∨ '\x00' ∈ value →
        (command.ended platform).2 = .ok 0 ∧ ¬ (command.after platform).environment.NulFree ∧
          ((command.after platform).environment.Receivable ↔
            command.session.environment.Receivable ∧
              2 ≤ (command.session.environment.values name).length)) ∧
    (∀ environment : Environment,
      (environment.Receivable → environment.Passes platform) ∧
        (¬ environment.Receivable → environment.Refuses platform)) ∧
    ∀ content,
      let taken := shell.commands platform ((Line.ofBytes content).map Utf8.decodeLossy)
      Reaches platform shell.session taken (shell.runReader platform content).1.session ∧
        (0 ∉ content → (∀ entry ∈ shell.session.aliases.toList, '\x00' ∉ entry.2) →
          (∀ command ∈ taken, ¬ command.BindsNul ∧ command.session.environment.NulFree) ∧
            (shell.runReader platform content).1.session.environment.NulFree) := by
  refine ⟨?_, ?_, ?_, ?_⟩
  · intro taken session hreaches
    refine ⟨(environment_of_reaches (fun _ => Command.named_after) hreaches hnamed).2, ?_, ?_⟩
    · intro hbinds
      have hkept := (nulFree_of_reaches hspells hreaches hfree hbinds).2.environment
      exact ⟨hkept, hkept.receivable.passes platform⟩
    · intro hsingle command hmember hbinds
      have hmet := (environment_of_reaches (fun _ => Command.single_after) hreaches hsingle).1
      exact hbinds.refuses_after (hmet command hmember) platform
  · intro command name value hbinds hnul
    exact ⟨hbinds.succeeds platform, hbinds.not_nulFree_after hnul platform,
      hbinds.receivable_after_iff hnul platform⟩
  · intro environment
    exact ⟨fun hreceivable => hreceivable.passes platform,
      fun hnul => Environment.refuses_of_not_receivable hnul platform⟩
  · intro content taken
    have hreaches := reaches_runReader platform shell content
    refine ⟨hreaches, fun hcontent haliases => ?_⟩
    have hplain := nulFree_commands hspells hfree hcontent haliases
    obtain ⟨hmet, hfinal⟩ := nulFree_of_reaches hspells hreaches hfree fun command hcommand =>
      (hplain command hcommand).not_bindsNul
    refine ⟨fun command hcommand => ⟨?_, (hmet command hcommand).environment⟩, hfinal.environment⟩
    exact (hplain command hcommand).not_bindsNul

/-- Names and values made of what variables hold stay what a child can receive, and a NUL that is
bound to a name with two values does not reach it. -/
theorem receivable_of_reaches_expanded :
    let platform := (Host.platform 2).withoutNul
    let start := onBareHost [("a", "setenv ")]
    let content := Utf8.encode "setenv A x\na B$A $A\n"
    let inherited := ["A=1", "A=2"].filterMap fun line =>
      Environment.entry? (Utf8.encode line.toList)
    let command : Command Host :=
      { session := { start.session with environment := Environment.capture inherited "/" }
        name := "setenv", arguments := ["A", "x\x00y"] }
    platform.SpellsFree ∧ start.session.environment.Named ∧ start.session.NulFree ∧
      0 ∉ content ∧ (∀ entry ∈ start.session.aliases.toList, '\x00' ∉ entry.2) ∧
        (start.runReader platform content).1.session.environment.NulFree ∧
          command.BindsNul ∧ ¬ (command.after platform).environment.NulFree ∧
            (command.after platform).environment.Passes platform := by
  intro platform start content inherited command
  have hspells : platform.SpellsFree := (Host.platform 2).spellsFree_withoutNul
  have hnamed : start.session.environment.Named := nofun
  have hfree : start.session.NulFree := ⟨nofun, by decide⟩
  have hcontent : 0 ∉ content := by decide +kernel
  have haliases : ∀ entry ∈ start.session.aliases.toList, '\x00' ∉ entry.2 := by decide
  obtain ⟨-, hsetenv, hreceives, hreader⟩ := receivable_of_reaches hspells hnamed hfree
  obtain ⟨-, hplain⟩ := hreader content
  have hbinds : command.Binds "A" "x\x00y" := ⟨by decide, by decide, by decide⟩
  have hnul : '\x00' ∈ "A".toList ∨ '\x00' ∈ "x\x00y".toList := by decide
  obtain ⟨-, hheld, hreached⟩ := hsetenv command "A" "x\x00y" hbinds hnul
  have hinherited : ∀ entry ∈ command.session.environment.childBindings,
      0 ∉ entry.1 ∧ 0 ∉ entry.2 := by decide +kernel
  have hbefore : command.session.environment.Receivable :=
    Environment.NulFree.receivable hinherited
  have hrepeated : 2 ≤ (command.session.environment.values "A").length := by decide +kernel
  exact ⟨hspells, hnamed, hfree, hcontent, haliases, (hplain hcontent haliases).2,
    ⟨_, _, hbinds, hnul⟩, hheld, (hreceives _).1 (hreached.mpr ⟨hbefore, hrepeated⟩)⟩

/-- A shell that has recorded and run a line which is one command. -/
def behind (platform : Platform World) (shell : Shell World) (text : Text) : Shell World :=
  { session := (remember platform shell.countLine.session text).runSegment platform
      { text, operator := .start } }

theorem runReader_of_plain {shell : Shell World} {content : Bytes} {text : Text}
    (hlines : (Line.ofBytes content).map Utf8.decodeLossy = [text])
    (haccepted : Line.accepted? text = some text) (hplain : Chain.Plain text)
    (hname : shell.session.aliases.get? (Alias.firstWord text).1 = none)
    (hstays : (behind platform shell text).session.leaving = none) :
    shell.runReader platform content =
      (behind platform shell text, (behind platform shell text).session.status) := by
  have hline : shell.runLine platform text = (behind platform shell text, none) := by
    rw [← hstays]
    exact executeLine_of_plain platform shell.countLine haccepted hplain hname true
  rw [runReader, hlines, runLines_cons, hline]
  rfl

/-- Behind a `setenv` that brings in a NUL and succeeds, a child that used to start does not. -/
theorem runReader_setenv_nul :
    let start := onBareHost []
    let bound := start.runReader (Host.platform 2) (Utf8.encode "setenv A\x00B x\n")
    start.session.environment.Named ∧ start.session.NulFree ∧
      (start.runReader (Host.platform 2) (Utf8.encode "/bin/echo hi\n")).2 = 0 ∧
        bound.2 = 0 ∧ ¬ bound.1.session.environment.NulFree ∧
          (bound.1.runReader (Host.platform 2) (Utf8.encode "/bin/echo hi\n")).2 = 126 := by
  intro start bound
  have hecho (shell : Shell Host) (hname : shell.session.aliases.get? "/bin/echo" = none)
      (hstays : (behind (Host.platform 2) shell "/bin/echo hi").session.leaving = none) :
      (shell.runReader (Host.platform 2) (Utf8.encode "/bin/echo hi\n")).2 =
        (behind (Host.platform 2) shell "/bin/echo hi").session.status := by
    have haccepted : Line.accepted? "/bin/echo hi" = some "/bin/echo hi".toList := by decide
    rw [runReader_of_plain (by decide +kernel) haccepted (by decide) hname hstays]
  have hbound : bound = (behind (Host.platform 2) start "setenv A\x00B x",
      (behind (Host.platform 2) start "setenv A\x00B x").session.status) :=
    runReader_of_plain (by decide +kernel) (by decide) (by decide) (by decide) (by decide +kernel)
  have hentry : ("A\x00B".toList, "x".toList) ∈ bound.1.session.environment.bindings.toList := by
    rw [hbound]
    decide +kernel
  refine ⟨nofun, ⟨nofun, by decide⟩, ?_, ?_, fun hfree => ?_, ?_⟩
  · rw [hecho start (by decide) (by decide +kernel)]
    decide +kernel
  · rw [hbound]
    decide +kernel
  · exact absurd (Environment.nulFree_entryOf_iff.mp
      (Environment.Each.of_mem_bindings hfree hentry)).1 (by decide)
  · rw [hbound, hecho _ (by decide +kernel) (by decide +kernel)]
    decide +kernel

end Shell

end CommandShell
