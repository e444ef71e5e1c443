import HiImCore.Hub.Context
import HiImCore.Lib.Decimal

/-! The command line of the hub (`cmd/hi-im-hub/main.cpp`) and the configuration it gives
(`include/hiim/hub/hub_server.hpp`). -/

namespace HiImCore.Cmd

open Decimal Hub Wire

structure DualHubConfig where
  forwardListen : Bytes
  backendListen : Bytes
  reactorThreads : Int
  workerThreads : Int
  queueCapacity : Nat
  authUser : Bytes
  authPass : Bytes
  healthListen : Bytes
  deriving DecidableEq, Repr

/-- `DualHubConfig{}`. -/
def DualHubConfig.initial : DualHubConfig where
  forwardListen := ascii "0.0.0.0:28888"
  backendListen := ascii "0.0.0.0:28889"
  reactorThreads := 4
  workerThreads := 4
  queueCapacity := 262144
  authUser := ascii "proxy"
  authPass := ascii "proxy"
  healthListen := ascii "0.0.0.0:8080"

/-- The arguments that `ParseArgs` compares with, `--help` apart. -/
inductive Flag where
  | forwardListen
  | backendListen
  | reactorThreads
  | workerThreads
  | authUser
  | authPass
  | healthListen
  | queueCapacity
  deriving DecidableEq, Repr

namespace Flag

def name : Flag → Bytes
  | forwardListen => ascii "--forward-listen"
  | backendListen => ascii "--backend-listen"
  | reactorThreads => ascii "--reactor-threads"
  | workerThreads => ascii "--worker-threads"
  | authUser => ascii "--auth-user"
  | authPass => ascii "--auth-pass"
  | healthListen => ascii "--health-listen"
  | queueCapacity => ascii "--queue-capacity"

def all : List Flag :=
  [forwardListen, backendListen, reactorThreads, workerThreads, authUser, authPass, healthListen,
    queueCapacity]

def ofName (arg : Bytes) : Option Flag := all.find? fun flag => flag.name == arg

/-- The assignment that a flag makes; `none` where the conversion of its value throws. -/
def assign (cfg : DualHubConfig) (value : Bytes) : Flag → Option DualHubConfig
  | forwardListen => some { cfg with forwardListen := value }
  | backendListen => some { cfg with backendListen := value }
  | reactorThreads => (stoi value).map fun n => { cfg with reactorThreads := n }
  | workerThreads => (stoi value).map fun n => { cfg with workerThreads := n }
  | authUser => some { cfg with authUser := value }
  | authPass => some { cfg with authPass := value }
  | healthListen => some { cfg with healthListen := value }
  | queueCapacity => (stoull value).map fun n => { cfg with queueCapacity := n }

end Flag

def helpFlag : Bytes := ascii "--help"

/-- How `ParseArgs` ends: it returns, it prints the usage and exits, or a conversion throws. -/
inductive Parsed where
  | config (cfg : DualHubConfig)
  | help
  | throws
  deriving DecidableEq, Repr

/-- The loop of `ParseArgs` over the arguments that are left. A flag takes the next argument, whatever
it is, and the last one takes the empty string; an unknown argument is passed over. -/
def parseArgs (cfg : DualHubConfig) : List Bytes → Parsed
  | [] => .config cfg
  | [arg] =>
      match Flag.ofName arg with
      | some flag =>
          match flag.assign cfg [] with
          | some cfg => .config cfg
          | none => .throws
      | none => if arg = helpFlag then .help else .config cfg
  | arg :: value :: rest =>
      match Flag.ofName arg with
      | some flag =>
          match flag.assign cfg value with
          | some cfg => parseArgs cfg rest
          | none => .throws
      | none => if arg = helpFlag then .help else parseArgs cfg (value :: rest)

section Settings

theorem ofName_name (flag : Flag) : Flag.ofName flag.name = some flag := by
  cases flag <;> decide

theorem parseArgs_flag (cfg : DualHubConfig) (flag : Flag) (value : Bytes) (rest : List Bytes) :
    parseArgs cfg (flag.name :: value :: rest) =
      match flag.assign cfg value with
      | some cfg => parseArgs cfg rest
      | none => .throws := by
  rw [parseArgs, ofName_name]

def Flag.print (cfg : DualHubConfig) : Flag → Bytes
  | .forwardListen => cfg.forwardListen
  | .backendListen => cfg.backendListen
  | .reactorThreads => integer cfg.reactorThreads
  | .workerThreads => integer cfg.workerThreads
  | .authUser => cfg.authUser
  | .authPass => cfg.authPass
  | .healthListen => cfg.healthListen
  | .queueCapacity => decimal cfg.queueCapacity

/-- The fields that a printed configuration can hold: two `int`s and a `size_t`. -/
structure DualHubConfig.InRange (cfg : DualHubConfig) : Prop where
  reactorThreads : -2147483648 ≤ cfg.reactorThreads ∧ cfg.reactorThreads ≤ 2147483647
  workerThreads : -2147483648 ≤ cfg.workerThreads ∧ cfg.workerThreads ≤ 2147483647
  queueCapacity : cfg.queueCapacity < UInt64.size

def Flag.Same (first second : DualHubConfig) : Flag → Prop
  | .forwardListen => first.forwardListen = second.forwardListen
  | .backendListen => first.backendListen = second.backendListen
  | .reactorThreads => first.reactorThreads = second.reactorThreads
  | .workerThreads => first.workerThreads = second.workerThreads
  | .authUser => first.authUser = second.authUser
  | .authPass => first.authPass = second.authPass
  | .healthListen => first.healthListen = second.healthListen
  | .queueCapacity => first.queueCapacity = second.queueCapacity

theorem eq_of_same {first second : DualHubConfig} (same : ∀ flag : Flag, flag.Same first second) :
    first = second := by
  obtain ⟨fl, bl, rt, wt, qc, au, ap, hl⟩ := first
  obtain ⟨fl', bl', rt', wt', qc', au', ap', hl'⟩ := second
  simp only [DualHubConfig.mk.injEq]
  exact ⟨same .forwardListen, same .backendListen, same .reactorThreads, same .workerThreads,
    same .queueCapacity, same .authUser, same .authPass, same .healthListen⟩

theorem assign_print {cfg : DualHubConfig} (inRange : cfg.InRange) (start : DualHubConfig)
    (flag : Flag) :
    ∃ next, flag.assign start (flag.print cfg) = some next ∧ flag.Same next cfg ∧
      ∀ other : Flag, other ≠ flag → other.Same next start := by
  have reactors : stoi (integer cfg.reactorThreads) = some cfg.reactorThreads := by
    have read := @stoi_integer [] rfl _ inRange.reactorThreads.1 inRange.reactorThreads.2
    rwa [List.append_nil] at read
  have workers : stoi (integer cfg.workerThreads) = some cfg.workerThreads := by
    have read := @stoi_integer [] rfl _ inRange.workerThreads.1 inRange.workerThreads.2
    rwa [List.append_nil] at read
  have capacity : stoull (decimal cfg.queueCapacity) = some cfg.queueCapacity := by
    have read := @stoull_decimal [] rfl _ inRange.queueCapacity
    rwa [List.append_nil] at read
  cases flag <;>
    simp only [Flag.assign, Flag.print, reactors, workers, capacity, Option.map_some] <;>
    refine ⟨_, rfl, rfl, ?_⟩ <;>
    intro other different <;>
    cases other <;>
    first | rfl | exact absurd rfl different

/-- The arguments that print the fields of these flags, in this order. -/
def printed (cfg : DualHubConfig) (order : List Flag) : List Bytes :=
  order.flatMap fun flag => [flag.name, flag.print cfg]

theorem Flag.Same.trans {flag : Flag} {first second third : DualHubConfig}
    (left : flag.Same first second) (right : flag.Same second third) : flag.Same first third := by
  cases flag <;> exact Eq.trans left right

theorem parseArgs_printed {cfg : DualHubConfig} (inRange : cfg.InRange) (order : List Flag)
    (start : DualHubConfig) :
    ∃ last, parseArgs start (printed cfg order) = .config last ∧
      ∀ flag : Flag, (flag ∈ order → flag.Same last cfg) ∧ (flag ∉ order → flag.Same last start) := by
  induction order generalizing start with
  | nil =>
      refine ⟨start, rfl, fun flag => ⟨fun never => absurd never List.not_mem_nil, fun _ => ?_⟩⟩
      cases flag <;> rfl
  | cons flag later ih =>
      obtain ⟨next, assigned, own, others⟩ := assign_print inRange start flag
      obtain ⟨last, parsed, fields⟩ := ih next
      refine ⟨last, ?_, fun other => ⟨fun member => ?_, fun absent => ?_⟩⟩
      · rw [printed, List.flatMap_cons]
        rw [printed] at parsed
        exact (parseArgs_flag ..).trans (by rw [assigned]; exact parsed)
      · by_cases again : other ∈ later
        · exact (fields other).1 again
        · obtain rfl : other = flag := (List.mem_cons.mp member).resolve_right again
          exact ((fields other).2 again).trans own
      · rw [List.mem_cons, not_or] at absent
        exact ((fields other).2 absent.2).trans (others other absent.1)

/-- The hub reads its configuration back from the command line that prints it, in any order of the
options and with any of them repeated. -/
theorem command_line_round_trip {cfg : DualHubConfig} (inRange : cfg.InRange) (start : DualHubConfig)
    (order : List Flag) (complete : ∀ flag, flag ∈ order) :
    parseArgs start (printed cfg order) = .config cfg := by
  obtain ⟨last, parsed, fields⟩ := parseArgs_printed inRange order start
  rw [parsed, eq_of_same fun flag => (fields flag).1 (complete flag)]

theorem command_line_round_trip_initial :
    parseArgs { DualHubConfig.initial with reactorThreads := -7 }
      (printed .initial (.queueCapacity :: Flag.all)) = .config .initial :=
  command_line_round_trip ⟨by decide, by decide, by decide⟩ _ _ (fun flag => by cases flag <;> decide)

end Settings

end HiImCore.Cmd
