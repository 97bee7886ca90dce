import SprintLedger.Program
import SprintLedger.Proofs.Ledger.RoundTrip
import SprintLedger.Proofs.Workspace.Refusals

set_option autoImplicit false

namespace SprintLedger

open CommandLine (Command Invocation)

namespace CommandLine

def Command.operation? (now : Instant) : Command → Option Operation
  | .stats _ => none
  | .start n => some (.start n now)
  | .complete n => some (.complete n now)

end CommandLine

namespace Program

variable {env : Environment} {now : Instant} {colors : Bool} {args : List String} {r : Refusals} {t : FileTree}

theorem machine_stopped {stop : CommandLine.Stop} (parsed : CommandLine.parse args = .error stop) :
    run (m := Machine) env now colors args r t = (.ofStop stop, t) := by
  simp only [run, parsed]
  rfl

theorem machine_misconfigured {i : Invocation} {failure : Failure} (parsed : CommandLine.parse args = .ok i)
    (config : Config.ofContent env.configFile (r.look t env.configFile) = .error failure) :
    run (m := Machine) env now colors args r t = (.failed failure, t) := by
  simp only [run, parsed, machine_bind, Storage.look, config]
  rfl

theorem machine_run {i : Invocation} {config : Config} (parsed : CommandLine.parse args = .ok i)
    (configured : Config.ofContent env.configFile (r.look t env.configFile) = .ok config) :
    run (m := Machine) env now colors args r t =
      ((execute (m := Machine) (.ofConfig config i.directory) now colors i.command r t).map .ofResult id) := by
  simp only [run, parsed, machine_bind, Storage.look, configured]
  rfl

theorem machine_execute {c : Command} {op : Operation} (w : Workspace) (changes : c.operation? now = some op) :
    execute (m := Machine) w now colors c r t = w.update (m := Machine) op r t := by
  cases c with
  | stats json => cases changes
  | start n =>
    obtain rfl : .start n now = op := Option.some.inj changes
    simp only [execute, machine_bind, Workspace.machine_perform]
    rfl
  | complete n =>
    obtain rfl : .complete n now = op := Option.some.inj changes
    simp only [execute, machine_bind, Workspace.machine_perform]
    rfl

-- The configuration can be read, and this is where it and the arguments say that the sprints are.
def Configured (env : Environment) (r : Refusals) (t : FileTree) (i : Invocation) (w : Workspace) : Prop :=
  ∃ config, Config.ofContent env.configFile (r.look t env.configFile) = .ok config ∧
    Workspace.ofConfig config i.directory = w

theorem failure_silent (ending : Ending) (failed : ending.exitCode ≠ 0) (help : String) :
    ending.output help = "" := by
  cases ending with
  | help => exact absurd rfl failed
  | version => exact absurd rfl failed
  | printed text => exact absurd rfl failed
  | misused error => rfl
  | failed failure => rfl

theorem unchanging_run (unchanging : ∀ i, CommandLine.parse args = .ok i → i.command.operation? now = none) :
    (run (m := Machine) env now colors args r t).2 = t := by
  cases parsed : CommandLine.parse args with
  | error stop => rw [machine_stopped parsed]
  | ok i =>
    cases configured : Config.ofContent env.configFile (r.look t env.configFile) with
    | error failure => rw [machine_misconfigured parsed configured]
    | ok config =>
      rw [machine_run parsed configured]
      have quiet := unchanging i parsed
      cases command : i.command with
      | stats json => exact Workspace.machine_report _ json colors r t
      | start n => rw [command] at quiet; cases quiet
      | complete n => rw [command] at quiet; cases quiet

-- A run that is to change something carries its operation out, or stops with the files as they were.
theorem changing_run {i : Invocation} {op : Operation} (parsed : CommandLine.parse args = .ok i)
    (changes : i.command.operation? now = some op) :
    (∃ w l l' t', Configured env r t i w ∧ w.Carries r t op l l' t' ∧
      run (m := Machine) env now colors args r t = (.printed op.report, t')) ∨
    (∀ w l l' t', Configured env r t i w → ¬w.Carries r t op l l' t') ∧
      ∃ failure, run (m := Machine) env now colors args r t = (.failed failure, t) := by
  cases configured : Config.ofContent env.configFile (r.look t env.configFile) with
  | error failure =>
    refine .inr ⟨?_, failure, machine_misconfigured parsed configured⟩
    rintro w l l' t' ⟨config, read, _⟩
    rw [configured] at read
    cases read
  | ok config =>
    by_cases carried : ∃ l l' t', (Workspace.ofConfig config i.directory).Carries r t op l l' t'
    · obtain ⟨l, l', t', carries⟩ := carried
      refine .inl ⟨_, l, l', t', ⟨config, configured, rfl⟩, carries, ?_⟩
      rw [machine_run parsed configured, machine_execute _ changes, Workspace.machine_update_carried carries]
      rfl
    · have stuck : ∀ l l' t', ¬(Workspace.ofConfig config i.directory).Carries r t op l l' t' :=
        fun l l' t' carries => carried ⟨l, l', t', carries⟩
      obtain ⟨failure, failed⟩ := Workspace.machine_update_failed stuck
      refine .inr ⟨?_, failure, ?_⟩
      · rintro w l l' t' ⟨_, read, rfl⟩
        rw [configured] at read
        cases read
        exact stuck l l' t'
      · rw [machine_run parsed configured, machine_execute _ changes, failed]
        rfl

def bare : Environment := ⟨none, none, none⟩

def readOnly : Refusals := { Refusals.nothing with write := fun _ _ => true }

def startAtRoot : List String := ["--dir=/", "start", "7"]

theorem start_at_root_parsed : CommandLine.parse startAtRoot = .ok ⟨.start ⟨7, by decide⟩, some "/"⟩ := rfl

end Program

end SprintLedger
